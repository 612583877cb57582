import JinCore.Terminal.Gateway
import JinCore.Terminal.OneSession

/-!
# No session stays with a connection that has gone

A listener is held for a connection while its open is on the way, and afterwards in the pair of the
connection.  A session without a listener has its timer running.

* `NothingLeft`      no connection that has gone holds a session, and what nobody holds will be closed;
* `orderly`          an open settles for a connection that is there and has no other session;
* `Later`            what a step of the service may do to the sessions that have not ended;
* `Held`             the invariant: `held_later`, `held_onOpen`, `held_onClose`, `held_step`;
* `nothing_left`, `left_behind`.
-/

namespace Terminal.Pty
open JsString Common Service

/-! ## what is claimed -/

def Closing (s : Service) (p : PtyId) : Prop := ∃ k reason, s.closes k = .closing p reason

/-- the session has not ended, and sends what it writes to this listener -/
def Service.holds (s : Service) (p : PtyId) (o : OpenId) : Bool :=
  match s.objects p with
  | some session => session.ended.isNone && decide (session.listener = some o)
  | none => false

/-- a handler of the connection has not finished -/
def Pending (g : Gateway) (c : ClientId) : Prop :=
  (∃ o, g.opener o = some c ∧ g.settled o = false) ∨
    ∃ k p reason, g.closer k = some c ∧ g.pty.closes k = .closing p reason

/-- the connection has disconnected and its handlers have finished -/
def Gone (g : Gateway) (c : ClientId) : Prop := g.connected c = false ∧ ¬ Pending g c

def Ended (s : Service) (p : PtyId) : Prop := ∀ session, s.objects p = some session → session.ended ≠ none

structure NothingLeft (g : Gateway) : Prop where
  detached : ∀ c, Gone g c → ∀ p o, g.pty.holds p o = true → g.opener o ≠ some c
  waits : ∀ p session, g.pty.objects p = some session → session.ended = none →
    (∀ o c, session.listener = some o → g.opener o = some c → Gone g c) →
    session.detachTimer = .running ∨ Closing g.pty p
  /-- the timer closes the session when it expires -/
  expires : ∀ p session k, g.pty.objects p = some session → session.ended = none →
    session.detachTimer = .running → g.pty.closes k = .idle → ∃ t, Runs.run Gateway.step g
      [.service (.detachTimer p k), .service (.closed k)] = some t ∧ Ended t.pty p
  closes : ∀ k p reason, g.pty.closes k = .closing p reason →
    ∃ t, Gateway.step g (.service (.closed k)) = some t ∧ Ended t.pty p

/-! ## the condition -/

def holdsData (s : Service) : PtyClientData → Bool
  | ⟨some p, some o⟩ => s.holds p o
  | _ => false

/-- a handler that goes on with a session of its own finds its connection there, and no other session
in the pair that it writes over -/
def orderly (g : Gateway) : Event → Bool
  | .openSettles o =>
    match g.opener o, g.pty.opens o with
    | some c, .returned p _ => (!g.pty.holds p o || g.connected c) && !holdsData g.pty (g.data c)
    | _, _ => true
  | _ => true

/-! ## steps of the service -/

/-- the call has its session -/
def Serves (s : Service) (o : OpenId) (p : PtyId) : Prop :=
  s.opens o = .resizing p ∨ ∃ resumed, s.opens o = .returned p resumed

def OpenPhase.over : OpenPhase → Bool
  | .returned .. | .threw _ => true
  | _ => false

/-- what a step of the service may do to the sessions that have not ended -/
structure Later (s s' : Service) : Prop where
  objects : ∀ p session', s'.objects p = some session' → session'.ended = none →
    (∃ session, s.objects p = some session ∧ session.ended = none ∧
      session'.listener = session.listener ∧
      (session.detachTimer = .running → session'.detachTimer = .running ∨ Closing s' p)) ∨
    ∃ o, session'.listener = some o ∧ s.opens o ≠ .idle ∧ (s.opens o).over = false ∧ Serves s' o p
  opens : ∀ o, s'.opens o = s.opens o ∨ s.opens o ≠ .idle ∧ (s.opens o).over = false ∧
    ∀ p, s.opens o = .resizing p → s'.opens o = .returned p true
  closes : ∀ k p reason, s.closes k = .closing p reason →
    s'.closes k = .closing p reason ∨ Ended s' p

section
variable {s s' : Service} {o : OpenId} {p : PtyId} {session : Session}

theorem holds_iff : s.holds p o = true ↔
    ∃ session, s.objects p = some session ∧ session.ended = none ∧ session.listener = some o := by
  rw [Service.holds]
  split
  next session hp =>
    rw [Bool.and_eq_true, decide_eq_true_iff, Option.isNone_iff_eq_none]
    constructor
    · exact fun h => ⟨session, hp, h⟩
    · rintro ⟨x, hx, h⟩
      rw [hp] at hx
      cases hx
      exact h
  next hp =>
    refine ⟨fun h => (Bool.false_ne_true h).elim, ?_⟩
    rintro ⟨x, hx, -⟩
    rw [hp] at hx
    cases hx

theorem Later.serves (hlater : Later s s') (h : Serves s o p) : Serves s' o p := by
  rcases hlater.opens o with hsame | ⟨-, hover, hresizing⟩
  · rw [Serves, hsame]
    exact h
  · rcases h with h | ⟨resumed, h⟩
    · exact Or.inr ⟨true, hresizing p h⟩
    · rw [h] at hover
      cases hover

/-- the sessions are left as they are, but for one that stays or ends -/
theorem objects_update {objects : PtyId → Option Session} (new : Session)
    (hp : s.objects p = some session) (hobjects : objects = Function.update s.objects p (some new))
    (hsame : new.ended = none → session.ended = none ∧ new.listener = session.listener ∧
      (session.detachTimer = .running → new.detachTimer = .running ∨ Closing s' p)) :
    ∀ q x', objects q = some x' → x'.ended = none →
      ∃ x, s.objects q = some x ∧ x.ended = none ∧ x'.listener = x.listener ∧
        (x.detachTimer = .running → x'.detachTimer = .running ∨ Closing s' q) := by
  intro q x' hq hended
  rw [hobjects] at hq
  by_cases hqp : q = p
  · subst hqp
    cases (Function.update_self q _ s.objects).symm.trans hq
    exact ⟨session, hp, hsame hended⟩
  · rw [Function.update_of_ne hqp] at hq
    exact ⟨x', hq, hended, rfl, Or.inl⟩

theorem later_put {new : Session} (hp : s.objects p = some session)
    (hsame : new.ended = none → session.ended = none ∧ new.listener = session.listener ∧
      (session.detachTimer = .running → new.detachTimer = .running)) : Later s (s.put p new) where
  objects q x' hq hended := Or.inl <| objects_update new hp rfl
    (fun h => ⟨(hsame h).1, (hsame h).2.1, fun hr => Or.inl ((hsame h).2.2 hr)⟩) q x' hq hended
  opens _ := Or.inl rfl
  closes _ _ _ h := Or.inl h

theorem later_refl (s : Service) : Later s s where
  objects _ session hp hended := Or.inl ⟨session, hp, hended, rfl, Or.inl⟩
  opens _ := Or.inl rfl
  closes _ _ _ h := Or.inl h

/-- the phases of the calls go on, the sessions stay -/
theorem later_setOpen {phase : OpenPhase} (hidle : s.opens o ≠ .idle) (hover : (s.opens o).over = false)
    (hresizing : ∀ p, s.opens o = .resizing p → phase = .returned p true)
    (hobjects : s'.objects = s.objects) (hcloses : s'.closes = s.closes)
    (hopens : s'.opens = Function.update s.opens o phase) : Later s s' where
  objects p session hp hended := by
    rw [hobjects] at hp
    exact Or.inl ⟨session, hp, hended, rfl, Or.inl⟩
  opens o' := by
    rw [hopens]
    by_cases ho : o' = o
    · subst ho
      rw [Function.update_self]
      exact Or.inr ⟨hidle, hover, hresizing⟩
    · rw [Function.update_of_ne ho]
      exact Or.inl rfl
  closes k p reason h := by
    rw [hcloses]
    exact Or.inl h

theorem later_setClose (k : CloseId) (phase : ClosePhase) (hk : s.closes k = .idle) :
    Later s (s.setClose k phase) where
  objects _ session hp hended := Or.inl ⟨session, hp, hended, rfl, fun h => Or.inl h⟩
  opens _ := Or.inl rfl
  closes k' p reason h := by
    refine Or.inl ((Function.update_of_ne ?_ _ _).trans h)
    rintro rfl
    rw [hk] at h
    cases h

/-! ### the end of a session -/

theorem finish_objects {event : PtyEnd} {reason : JsString} {q : PtyId}
    (hq : (s.finish p event reason).objects q = some session) (hended : session.ended = none) :
    s.objects q = some session := by
  rw [finish] at hq
  split at hq
  next => exact hq
  next old hold =>
    split at hq
    next => exact hq
    next =>
      by_cases hqp : q = p
      · subst hqp
        cases (Function.update_self q _ s.objects).symm.trans hq
        cases hended
      · exact (Function.update_of_ne hqp _ _).symm.trans hq

theorem finish_ended (event : PtyEnd) (reason : JsString) : Ended (s.finish p event reason) p := by
  intro session hp hended
  have hold := finish_objects hp hended
  rw [finish, hold] at hp
  dsimp only at hp
  rw [if_neg (not_not.mpr hended)] at hp
  have hsession := (Function.update_self p _ s.objects).symm.trans hp
  rw [Option.some.injEq] at hsession
  rw [← hsession] at hended
  cases hended

theorem finish_opens (event : PtyEnd) (reason : JsString) : (s.finish p event reason).opens = s.opens := by
  rw [finish]
  split
  next => rfl
  next => split <;> rfl

theorem finish_closes (event : PtyEnd) (reason : JsString) :
    (s.finish p event reason).closes = s.closes := by
  rw [finish]
  split
  next => rfl
  next => split <;> rfl

theorem later_finish (event : PtyEnd) (reason : JsString) : Later s (s.finish p event reason) where
  objects _ session hq hended := Or.inl ⟨session, finish_objects hq hended, hended, rfl, Or.inl⟩
  opens o := Or.inl (congrFun (finish_opens event reason) o)
  closes k _ _ h := Or.inl ((congrFun (finish_closes event reason) k).trans h)

theorem later_closed {k : CloseId} {reason : JsString} (hk : s.closes k = .closing p reason) :
    Later s ((s.finish p (.exit (-1)) reason).setClose k .done) where
  objects _ session hq hended := Or.inl ⟨session, finish_objects hq hended, hended, rfl, Or.inl⟩
  opens o := Or.inl (congrFun (finish_opens _ reason) o)
  closes k' q reason' h := by
    by_cases hk' : k' = k
    · subst hk'
      cases hk.symm.trans h
      exact Or.inr (finish_ended _ _)
    · refine Or.inl ((Function.update_of_ne hk' _ _).trans ?_)
      exact (congrFun (finish_closes _ reason) k').trans h

theorem later_detachTimer (hkept : Kept s) {k : CloseId} (hp : s.objects p = some session)
    (hk : s.closes k = .idle) :
    Later s ((s.put p { session with detachTimer := .fired }).beginClose k p
      (lit "sin app conectada")) := by
  have hobjects : ∀ (x : Service) (reason : JsString), (x.beginClose k p reason).objects = x.objects ∧
      (x.beginClose k p reason).opens = x.opens := by
    intro x reason
    rw [beginClose]
    split <;> exact ⟨rfl, rfl⟩
  have hcloses : ∀ (x : Service) (reason : JsString) (k' : CloseId), k' ≠ k →
      (x.beginClose k p reason).closes k' = x.closes k' := by
    intro x reason k' hk'
    rw [beginClose]
    split <;> exact Function.update_of_ne hk' _ _
  let new : Session := { session with detachTimer := .fired }
  refine ⟨fun q x' hq hended => Or.inl ?_, fun o => Or.inl ?_, fun k' q reason h => Or.inl ?_⟩
  · refine objects_update new hp (hobjects _ _).1
      (fun hnew => ⟨hnew, rfl, fun _ => Or.inr ?_⟩) q x' hq hended
    have hget : (s.put p new).get p = some new := by
      rw [Service.get, if_pos]
      · exact Function.update_self _ _ _
      · exact (hkept.live p session hp hnew).1
    refine ⟨k, lit "sin app conectada", ?_⟩
    rw [beginClose, hget]
    dsimp only
    rw [if_pos hnew]
    exact Function.update_self _ _ _
  · rw [(hobjects _ _).2]
    rfl
  · refine (hcloses _ _ k' ?_).trans h
    rintro rfl
    rw [hk] at h
    cases h

theorem later_endOpen {opening : Opening} (hphase : s.opens o = .opening opening)
    (hend : s.endOpen o opening p = some s') : Later s s' := by
  obtain ⟨-, hend⟩ := Option.ite_none_left_eq_some.mp hend
  cases hend
  have hopens : ∀ o', o' ≠ o → Function.update s.opens o (.returned p false) o' = s.opens o' :=
    fun o' ho => Function.update_of_ne ho _ _
  refine ⟨fun q x' hq hended => ?_, fun o' => ?_, fun _ _ _ h => Or.inl h⟩
  · by_cases hqp : q = p
    · subst hqp
      cases (Function.update_self q _ s.objects).symm.trans hq
      refine Or.inr ⟨o, rfl, ?_, ?_, Or.inr ⟨false, Function.update_self _ _ _⟩⟩
      · rw [hphase]
        exact OpenPhase.noConfusion
      · rw [hphase]
        rfl
    · exact Or.inl ⟨x', (Function.update_of_ne hqp _ _).symm.trans hq, hended, rfl, Or.inl⟩
  · by_cases ho : o' = o
    · subst ho
      rw [hphase]
      refine Or.inr ⟨OpenPhase.noConfusion, rfl, fun p h => ?_⟩
      cases h
    · exact Or.inl (hopens o' ho)

/-- every step of the service that is no call of the gateway -/
theorem later_step (hkept : Kept s) {a : Action} (hcalled : a.called = false)
    (hstep : Service.step s a = some s') : Later s s' := by
  cases a with
  | openOrAttach => cases hcalled
  | detach => cases hcalled
  | setKeepAlive => cases hcalled
  | close => cases hcalled
  | audited o =>
    rw [Service.step] at hstep
    split at hstep
    next opening hphase =>
      cases hstep
      refine later_setOpen ?_ ?_ (fun p h => ?_) rfl rfl rfl
      · rw [hphase]
        exact OpenPhase.noConfusion
      · rw [hphase]
        rfl
      · rw [hphase] at h
        cases h
    next => cases hstep
  | opened o p =>
    rw [Service.step] at hstep
    split at hstep
    next opening hphase => exact later_endOpen hphase hstep
    next => cases hstep
  | openFails o =>
    have hfail : ∀ opening, s.opens o = .auditing opening ∨ s.opens o = .opening opening →
        Later s (s.failOpen o opening) := by
      rintro opening (hphase | hphase)
      · refine later_setOpen ?_ ?_ (fun p h => ?_) rfl rfl rfl
        · rw [hphase]
          exact OpenPhase.noConfusion
        · rw [hphase]
          rfl
        · rw [hphase] at h
          cases h
      · refine later_setOpen ?_ ?_ (fun p h => ?_) rfl rfl rfl
        · rw [hphase]
          exact OpenPhase.noConfusion
        · rw [hphase]
          rfl
        · rw [hphase] at h
          cases h
    rw [Service.step] at hstep
    split at hstep
    next opening hphase =>
      cases hstep
      exact hfail opening (Or.inl hphase)
    next opening hphase =>
      cases hstep
      exact hfail opening (Or.inr hphase)
    next => cases hstep
  | resized o =>
    rw [Service.step] at hstep
    split at hstep
    next p hphase =>
      cases hstep
      refine later_setOpen ?_ ?_ (fun q h => ?_) rfl rfl rfl
      · rw [hphase]
        exact OpenPhase.noConfusion
      · rw [hphase]
        rfl
      · rw [hphase] at h
        cases h
        rfl
    next => cases hstep
  | closed k =>
    rw [Service.step] at hstep
    split at hstep
    next p reason hphase =>
      cases hstep
      exact later_closed hphase
    next => cases hstep
  | detachTimer p k =>
    rw [Service.step] at hstep
    split at hstep
    next session hp hk =>
      obtain ⟨-, hstep⟩ := Option.ite_none_right_eq_some.mp hstep
      cases hstep
      exact later_detachTimer hkept hp hk
    next => cases hstep
  | lingerTimer p =>
    rw [Service.step] at hstep
    split at hstep
    next session hp =>
      obtain ⟨-, hstep⟩ := Option.ite_none_right_eq_some.mp hstep
      cases hstep
      have hput : Later s (s.put p { session with lingerTimer := .fired }) :=
        later_put hp fun h => ⟨h, rfl, id⟩
      exact ⟨hput.objects, hput.opens, hput.closes⟩
    next => cases hstep
  | pumpAnswered p =>
    obtain ⟨session, hp, rfl⟩ := Option.map_eq_some_iff.mp hstep
    exact later_put hp fun h => ⟨h, rfl, id⟩
  | pumpFails p notFound =>
    obtain ⟨session, hp, rfl⟩ := Option.map_eq_some_iff.mp hstep
    rw [onPumpFails]
    split
    · exact later_refl s
    · split
      · exact later_finish _ _
      · split
        · exact later_finish _ _
        · exact later_put hp fun h => ⟨h, rfl, id⟩
  | outputLine p =>
    obtain ⟨session, hp, rfl⟩ := Option.map_eq_some_iff.mp hstep
    refine later_put hp fun h => ?_
    rw [onOutputLine] at h ⊢
    split at h
    next hif =>
      rw [if_pos hif]
      exact ⟨h, rfl, fun _ => rfl⟩
    next hif =>
      rw [if_neg hif]
      exact ⟨h, rfl, id⟩
  | exitLine p code =>
    obtain ⟨session, -, rfl⟩ := Option.map_eq_some_iff.mp hstep
    exact later_finish _ _
  | errorLine p message =>
    obtain ⟨session, -, rfl⟩ := Option.map_eq_some_iff.mp hstep
    exact later_finish _ _

theorem later_setKeepAlive (p : PtyId) (ms : Int) : Later s (s.onSetKeepAlive p ms) := by
  rw [onSetKeepAlive]
  split
  next session hget =>
    split
    · exact later_refl s
    · refine later_put (get_objects hget) fun h => ?_
      split at h
      next hif =>
        rw [if_pos hif]
        exact ⟨h, rfl, fun _ => rfl⟩
      next hif =>
        rw [if_neg hif]
        exact ⟨h, rfl, id⟩
  next => exact later_refl s

theorem later_beginClose {k : CloseId} (p : PtyId) (reason : JsString) (hk : s.closes k = .idle) :
    Later s (s.beginClose k p reason) := by
  rw [beginClose]
  split
  · exact later_setClose k _ hk
  · exact later_setClose k _ hk

end

/-! ## the invariant -/

structure Held (g : Gateway) : Prop where
  kept : Kept g.pty
  serves : ∀ p o, g.pty.holds p o = true → Serves g.pty o p
  opener : ∀ o, g.pty.opens o ≠ .idle → ∃ c, g.opener o = some c
  settled : ∀ o, g.settled o = true → (g.pty.opens o).over = true
  waits : ∀ p session, g.pty.objects p = some session → session.ended = none →
    session.listener = none → session.detachTimer = .running ∨ Closing g.pty p
  held : ∀ p o c, g.pty.holds p o = true → g.opener o = some c → g.settled o = false ∨
    (g.connected c = true ∧ g.data c = ⟨some p, some o⟩) ∨
      ∃ k reason, g.closer k = some c ∧ g.pty.closes k = .closing p reason

section
variable {g g' : Gateway} {s s' : Service} {o : OpenId} {p : PtyId} {c : ClientId} {session : Session}

/-- a session that is held after a step of the service was held before it, or is new -/
theorem Later.holds (hlater : Later s s') (h : s'.holds p o = true) : s.holds p o = true ∨
    s.opens o ≠ .idle ∧ (s.opens o).over = false ∧ Serves s' o p := by
  obtain ⟨session', hp, hended, hlistener⟩ := holds_iff.mp h
  rcases hlater.objects p session' hp hended with ⟨x, hx, hxended, hxlistener, -⟩ | ⟨o', ho', hrest⟩
  · exact Or.inl (holds_iff.mpr ⟨x, hx, hxended, hxlistener ▸ hlistener⟩)
  · rw [ho', Option.some.injEq] at hlistener
    subst hlistener
    exact Or.inr hrest

theorem Ended.not_holds (h : Ended s p) : s.holds p o = false := by
  rw [← Bool.not_eq_true]
  intro hholds
  obtain ⟨session, hp, hended, -⟩ := holds_iff.mp hholds
  exact h session hp hended

theorem held_later (hheld : Held g) (hkept : Kept s') (hlater : Later g.pty s') :
    Held { g with pty := s' } where
  kept := hkept
  serves p o hholds := by
    rcases hlater.holds hholds with hold | ⟨-, -, hserves⟩
    · exact hlater.serves (hheld.serves p o hold)
    · exact hserves
  opener o ho := by
    refine hheld.opener o fun hidle => ?_
    rcases hlater.opens o with hsame | ⟨hne, -⟩
    · exact ho (hsame.trans hidle)
    · exact hne hidle
  settled o ho := by
    have hover := hheld.settled o ho
    rcases hlater.opens o with hsame | ⟨-, hnot, -⟩
    · rw [hsame]
      exact hover
    · rw [hover] at hnot
      cases hnot
  waits p session hp hended hlistener := by
    rcases hlater.objects p session hp hended with ⟨x, hx, hxended, hsame, hrunning⟩ | ⟨o, ho, -⟩
    · rcases hheld.waits p x hx hxended (hsame ▸ hlistener) with hx' | ⟨k, reason, hk⟩
      · exact hrunning hx'
      · rcases hlater.closes k p reason hk with hk' | hend
        · exact Or.inr ⟨k, reason, hk'⟩
        · exact absurd hended (hend session hp)
    · rw [hlistener] at ho
      cases ho
  held p o c hholds ho := by
    rcases hlater.holds hholds with hold | ⟨-, hover, -⟩
    · rcases hheld.held p o c hold ho with h | h | ⟨k, reason, hcloser, hk⟩
      · exact Or.inl h
      · exact Or.inr (Or.inl h)
      · rcases hlater.closes k p reason hk with hk' | hend
        · exact Or.inr (Or.inr ⟨k, reason, hcloser, hk'⟩)
        · rw [hend.not_holds] at hholds
          cases hholds
    · refine Or.inl (Bool.eq_false_iff.mpr fun hsettled => ?_)
      rw [hheld.settled o hsettled] at hover
      cases hover

/-! ### a pair is let go -/

/-- what is held after a detach was held before it, and not by the listener that has gone -/
theorem holds_detach {p' : PtyId} {o' : OpenId} (hkept : Kept s)
    (h : (s.onDetach p' o').holds p o = true) : s.holds p o = true ∧ ¬ (p' = p ∧ o' = o) := by
  obtain ⟨session, hp, hended, hlistener⟩ := holds_iff.mp h
  rw [onDetach] at hp
  split at hp
  next old hget =>
    split at hp
    next hne =>
      refine ⟨holds_iff.mpr ⟨session, hp, hended, hlistener⟩, ?_⟩
      rintro ⟨rfl, rfl⟩
      rw [get_objects hget] at hp
      cases hp
      exact hne hlistener
    next =>
      by_cases hpp : p = p'
      · subst hpp
        have hsession := (Function.update_self p _ s.objects).symm.trans hp
        rw [Option.some.injEq] at hsession
        rw [← hsession] at hlistener
        split at hlistener <;> cases hlistener
      · refine ⟨holds_iff.mpr ⟨session, (Function.update_of_ne hpp _ _).symm.trans hp, hended, hlistener⟩, ?_⟩
        rintro ⟨rfl, -⟩
        exact hpp rfl
  next hget =>
    refine ⟨holds_iff.mpr ⟨session, hp, hended, hlistener⟩, ?_⟩
    rintro ⟨rfl, -⟩
    rw [Service.get, if_pos (hkept.live p' session hp hended).1, hp] at hget
    cases hget

theorem detach_opens (p : PtyId) (o : OpenId) : (s.onDetach p o).opens = s.opens := by
  rw [onDetach]
  split
  · split <;> rfl
  · rfl

theorem detach_closes (p : PtyId) (o : OpenId) : (s.onDetach p o).closes = s.closes := by
  rw [onDetach]
  split
  · split <;> rfl
  · rfl

/-- a session without a listener had none before, or its timer has just been started -/
theorem detach_waits {p' : PtyId} {o' : OpenId} (hp : (s.onDetach p' o').objects p = some session)
    (hended : session.ended = none) :
    s.objects p = some session ∨ session.detachTimer = .running := by
  rw [onDetach] at hp
  split at hp
  next old hget =>
    split at hp
    next => exact Or.inl hp
    next =>
      by_cases hpp : p = p'
      · subst hpp
        have hsession := (Function.update_self p _ s.objects).symm.trans hp
        rw [Option.some.injEq] at hsession
        subst hsession
        split at hended
        next hif =>
          rw [if_pos hif]
          exact Or.inr rfl
        next hif => exact absurd hended hif
      · exact Or.inl ((Function.update_of_ne hpp _ _).symm.trans hp)
  next => exact Or.inl hp

/-- the pair of a connection does not hold a session any more -/
theorem holds_detachData (hkept : Kept g.pty) (h : (g.detachData c).holds p o = true) :
    g.pty.holds p o = true ∧ g.data c ≠ ⟨some p, some o⟩ := by
  rw [Gateway.detachData] at h
  split at h
  next p' o' hdata =>
    obtain ⟨hold, hne⟩ := holds_detach hkept h
    refine ⟨hold, fun hsame => hne ?_⟩
    rw [hdata, PtyClientData.mk.injEq, Option.some.injEq, Option.some.injEq] at hsame
    exact hsame
  next hdata => exact ⟨h, hdata p o⟩

theorem detachData_opens : (g.detachData c).opens = g.pty.opens := by
  rw [Gateway.detachData]
  split
  · exact detach_opens _ _
  · rfl

theorem detachData_closes : (g.detachData c).closes = g.pty.closes := by
  rw [Gateway.detachData]
  split
  · exact detach_closes _ _
  · rfl

theorem kept_detachData (hkept : Kept g.pty) : Kept (g.detachData c) := by
  rw [Gateway.detachData]
  split
  · exact kept_detach hkept _ _
  · exact hkept

theorem detachData_waits (hp : (g.detachData c).objects p = some session)
    (hended : session.ended = none) :
    g.pty.objects p = some session ∨ session.detachTimer = .running := by
  rw [Gateway.detachData] at hp
  split at hp
  · exact detach_waits hp hended
  · exact Or.inl hp

theorem held_detachData (hheld : Held g) {data : ClientId → PtyClientData} {connected : ClientId → Bool}
    (hdata : ∀ c', c' ≠ c → data c' = g.data c')
    (hconnected : ∀ c', c' ≠ c → connected c' = g.connected c') :
    Held { g with pty := g.detachData c, data := data, connected := connected } where
  kept := kept_detachData hheld.kept
  serves p o hholds := by
    rw [Serves, detachData_opens]
    exact hheld.serves p o (holds_detachData hheld.kept hholds).1
  opener o := by
    rw [detachData_opens]
    exact hheld.opener o
  settled o := by
    rw [detachData_opens]
    exact hheld.settled o
  waits p session hp hended hlistener := by
    rw [Closing, detachData_closes]
    rcases detachData_waits hp hended with hold | hrunning
    · exact hheld.waits p session hold hended hlistener
    · exact Or.inl hrunning
  held p o c' hholds ho := by
    obtain ⟨hold, hne⟩ := holds_detachData hheld.kept hholds
    rcases hheld.held p o c' hold ho with h | ⟨hconn, hpair⟩ | ⟨k, reason, hcloser, hk⟩
    · exact Or.inl h
    · have hc : c' ≠ c := by
        rintro rfl
        exact hne hpair
      exact Or.inr (Or.inl ⟨(hconnected c' hc).trans hconn, (hdata c' hc).trans hpair⟩)
    · refine Or.inr (Or.inr ⟨k, reason, hcloser, ?_⟩)
      rw [detachData_closes]
      exact hk

/-! ### an open -/

/-- a session has the listener of the open, or is as it was -/
theorem beginOpen_cases {w : WorkspaceId} {keepAliveMs : Option Int} {r : PtyId}
    (hbegin : s.beginOpen o w keepAliveMs r = some s') :
    ∃ phase, s'.opens = Function.update s.opens o phase ∧ phase ≠ .idle ∧ s'.closes = s.closes ∧
      ∀ q x, s'.objects q = some x →
        s.objects q = some x ∨ (x.listener = some o ∧ phase = .resizing q) := by
  have hreserve : ∀ {opening : Opening}, s.reserve o opening = some s' →
      s'.opens = Function.update s.opens o (.auditing opening) ∧ s'.closes = s.closes ∧
        s'.objects = s.objects := by
    intro opening h
    obtain ⟨-, h⟩ := Option.ite_none_left_eq_some.mp h
    cases h
    exact ⟨rfl, rfl, rfl⟩
  have hwaits : ∀ {opening : Opening}, s.reserve o opening = some s' →
      ∃ phase, s'.opens = Function.update s.opens o phase ∧ phase ≠ .idle ∧ s'.closes = s.closes ∧
        ∀ q x, s'.objects q = some x →
          s.objects q = some x ∨ (x.listener = some o ∧ phase = .resizing q) := by
    intro opening h
    obtain ⟨hopens, hcloses, hobjects⟩ := hreserve h
    refine ⟨_, hopens, OpenPhase.noConfusion, hcloses, fun q x hq => Or.inl ?_⟩
    rw [← hobjects]
    exact hq
  rw [beginOpen] at hbegin
  split at hbegin
  next => exact hwaits hbegin
  next existingId hexisting =>
    split at hbegin
    next =>
      cases hbegin
      exact ⟨_, rfl, OpenPhase.noConfusion, rfl, fun q x hq => Or.inl hq⟩
    next existing hget =>
      split at hbegin
      next hended =>
        cases hbegin
        refine ⟨_, rfl, OpenPhase.noConfusion, rfl, fun q x hq => ?_⟩
        by_cases hqe : q = existingId
        · subst hqe
          cases (Function.update_self q _ s.objects).symm.trans hq
          exact Or.inr ⟨rfl, rfl⟩
        · exact Or.inl ((Function.update_of_ne hqe _ _).symm.trans hq)
      next => exact hwaits hbegin

theorem serves_ne_idle (h : Serves s o p) : s.opens o ≠ .idle := by
  rcases h with h | ⟨resumed, h⟩ <;> rw [h] <;> exact OpenPhase.noConfusion

theorem held_beginOpen (hheld : Held g) {w : WorkspaceId} {keepAliveMs : Option Int} {r : PtyId}
    (hidle : g.pty.opens o = .idle) (hbegin : g.pty.beginOpen o w keepAliveMs r = some s') :
    Held { g with
      pty := s'
      opener := Function.update g.opener o (some c)
      settled := Function.update g.settled o false } := by
  obtain ⟨phase, hopens, hphase, hcloses, hobjects⟩ := beginOpen_cases hbegin
  have hother : ∀ o', o' ≠ o → s'.opens o' = g.pty.opens o' := by
    intro o' ho
    rw [hopens]
    exact Function.update_of_ne ho _ _
  -- what is held now was held before by another call, or by this one, which is to resize it
  have hcases : ∀ q o', s'.holds q o' = true →
      (o' ≠ o ∧ g.pty.holds q o' = true) ∨ (o' = o ∧ phase = .resizing q) := by
    intro q o' hholds
    obtain ⟨x, hx, hended, hlistener⟩ := holds_iff.mp hholds
    rcases hobjects q x hx with hold | ⟨ho, hq⟩
    · have hholds' : g.pty.holds q o' = true := holds_iff.mpr ⟨x, hold, hended, hlistener⟩
      refine Or.inl ⟨?_, hholds'⟩
      rintro rfl
      exact serves_ne_idle (hheld.serves q o' hholds') hidle
    · rw [hlistener, Option.some.injEq] at ho
      exact Or.inr ⟨ho, hq⟩
  refine ⟨kept_beginOpen hheld.kept hidle hbegin, fun q o' hholds => ?_, fun o' ho' => ?_,
    fun o' ho' => ?_, fun q x hx hended hlistener => ?_, fun q o' c' hholds ho' => ?_⟩
  · rcases hcases q o' hholds with ⟨ho, hold⟩ | ⟨rfl, hq⟩
    · rw [Serves, hother o' ho]
      exact hheld.serves q o' hold
    · refine Or.inl ?_
      rw [hopens, ← hq]
      exact Function.update_self _ _ _
  · by_cases ho : o' = o
    · rw [ho]
      exact ⟨c, Function.update_self _ _ _⟩
    · rw [hother o' ho] at ho'
      obtain ⟨c', hc'⟩ := hheld.opener o' ho'
      exact ⟨c', (Function.update_of_ne ho _ _).trans hc'⟩
  · by_cases ho : o' = o
    · subst ho
      cases (Function.update_self o' _ g.settled).symm.trans ho'
    · rw [hother o' ho]
      exact hheld.settled o' ((Function.update_of_ne ho _ _).symm.trans ho')
  · rw [Closing, hcloses]
    rcases hobjects q x hx with hold | ⟨ho, -⟩
    · exact hheld.waits q x hold hended hlistener
    · rw [hlistener] at ho
      cases ho
  · rcases hcases q o' hholds with ⟨ho, hold⟩ | ⟨rfl, -⟩
    · have hopener := (Function.update_of_ne ho _ _).symm.trans ho'
      rcases hheld.held q o' c' hold hopener with h | h | h
      · exact Or.inl ((Function.update_of_ne ho _ _).trans h)
      · exact Or.inr (Or.inl h)
      · rw [← hcloses] at h
        exact Or.inr (Or.inr h)
    · exact Or.inl (Function.update_self _ _ _)

theorem held_onOpen (hheld : Held g) {w : WorkspaceId} {minutes : Option Int} {r : PtyId}
    (hopen : g.onOpen c o w minutes r = some g') : Held g' := by
  obtain ⟨s', hstep, rfl⟩ := Option.map_eq_some_iff.mp hopen
  rw [Service.step] at hstep
  split at hstep
  next hidle =>
    have hdetached : Held { g.setData c ⟨none, none⟩ with pty := g.detachData c } :=
      held_detachData hheld (fun c' hc => Function.update_of_ne hc _ _) fun _ _ => rfl
    have hopened := held_beginOpen (c := c) hdetached hidle hstep
    exact hopened
  next => cases hstep

theorem held_onOpenSettles (hheld : Held g) (hc : g.opener o = some c)
    (horderly : orderly g (.openSettles o) = true) (hsettles : g.onOpenSettles c o = some g') :
    Held g' := by
  have hsettled : ∀ o', Function.update g.settled o true o' = true →
      (g.pty.opens o).over = true → (g.pty.opens o').over = true := by
    intro o' ho' hover
    by_cases ho : o' = o
    · rw [ho]
      exact hover
    · exact hheld.settled o' ((Function.update_of_ne ho _ _).symm.trans ho')
  rw [Gateway.onOpenSettles] at hsettles
  split at hsettles
  next p resumed hphase =>
    cases hsettles
    rw [orderly, hc, hphase] at horderly
    dsimp only at horderly
    rw [Bool.and_eq_true, Bool.or_eq_true, Bool.not_eq_true', Bool.not_eq_true'] at horderly
    obtain ⟨hthere, hfree⟩ := horderly
    refine ⟨hheld.kept, hheld.serves, hheld.opener,
      fun o' ho' => hsettled o' ho' (by rw [hphase]; rfl), hheld.waits, fun q o' c' hnow hnowOpener => ?_⟩
    have hholds : g.pty.holds q o' = true := hnow
    have ho' : g.opener o' = some c' := hnowOpener
    by_cases ho : o' = o
    · subst ho
      cases hc.symm.trans ho'
      have hq : q = p := by
        rcases hheld.serves q o' hholds with h | ⟨r, h⟩
        · rw [hphase] at h
          cases h
        · rw [hphase] at h
          cases h
          rfl
      subst hq
      have hconnected := hthere.resolve_left (by rw [hholds]; exact Bool.noConfusion)
      exact Or.inr (Or.inl ⟨hconnected, Function.update_self _ _ _⟩)
    · rcases hheld.held q o' c' hholds ho' with h | ⟨hconnected, hdata⟩ | h
      · exact Or.inl ((Function.update_of_ne ho _ _).trans h)
      · have hne : c' ≠ c := by
          rintro rfl
          rw [hdata, holdsData, hholds] at hfree
          cases hfree
        exact Or.inr (Or.inl ⟨hconnected, (Function.update_of_ne hne _ _).trans hdata⟩)
      · exact Or.inr (Or.inr h)
  next error hphase =>
    cases hsettles
    refine ⟨hheld.kept, hheld.serves, hheld.opener,
      fun o' ho' => hsettled o' ho' (by rw [hphase]; rfl), hheld.waits, fun q o' c' hnow ho' => ?_⟩
    have hholds : g.pty.holds q o' = true := hnow
    have ho : o' ≠ o := by
      rintro rfl
      rcases hheld.serves q o' hholds with h | ⟨r, h⟩ <;> rw [hphase] at h <;> cases h
    rcases hheld.held q o' c' hholds ho' with h | h
    · exact Or.inl ((Function.update_of_ne ho _ _).trans h)
    · exact Or.inr h
  next => cases hsettles

/-! ### a close -/

theorem beginClose_closes (hkept : Kept s) {k : CloseId} (reason : JsString)
    (hholds : s.holds p o = true) : (s.beginClose k p reason).closes k = .closing p reason := by
  obtain ⟨session, hp, hended, -⟩ := holds_iff.mp hholds
  have hget : s.get p = some session := by
    rw [Service.get, if_pos (hkept.live p session hp hended).1]
    exact hp
  rw [beginClose, hget]
  dsimp only
  rw [if_pos hended]
  exact Function.update_self _ _ _

theorem held_onClose (hheld : Held g) {k : CloseId} (hclose : g.onClose c k = some g') : Held g' := by
  rw [Gateway.onClose] at hclose
  split at hclose
  next =>
    cases hclose
    exact hheld
  next p hdata =>
    obtain ⟨s', hstep, rfl⟩ := Option.map_eq_some_iff.mp hclose
    rw [Service.step] at hstep
    split at hstep
    next hidle =>
      cases hstep
      have hlater := later_beginClose p (lit "cerrada por el owner") hidle
      have hnext := held_later hheld (kept_beginClose hheld.kept k p _) hlater
      refine ⟨hnext.kept, hnext.serves, hnext.opener, hnext.settled, hnext.waits,
        fun q o' c' hholds ho' => ?_⟩
      rcases hlater.holds hholds with hold | ⟨-, hover, -⟩
      · rcases hheld.held q o' c' hold ho' with h | ⟨hconnected, hpair⟩ | ⟨k', reason, hcloser, hk'⟩
        · exact Or.inl h
        · by_cases hc : c' = c
          · subst hc
            rw [hpair, Option.some.injEq] at hdata
            subst hdata
            refine Or.inr (Or.inr ⟨k, lit "cerrada por el owner", Function.update_self _ _ _, ?_⟩)
            exact beginClose_closes hheld.kept _ hold
          · exact Or.inr (Or.inl ⟨hconnected, (Function.update_of_ne hc _ _).trans hpair⟩)
        · have hk : k' ≠ k := by
            rintro rfl
            rw [hidle] at hk'
            cases hk'
          refine Or.inr (Or.inr ⟨k', reason, (Function.update_of_ne hk _ _).trans hcloser, ?_⟩)
          rcases hlater.closes k' q reason hk' with h | hend
          · exact h
          · have hnot : (g.pty.beginClose k p (lit "cerrada por el owner")).holds q o' = true := hholds
            rw [hend.not_holds] at hnot
            cases hnot
      · refine Or.inl (Bool.eq_false_iff.mpr fun hsettled => ?_)
        rw [hheld.settled o' hsettled] at hover
        cases hover
    next => cases hstep

/-! ### every step -/

theorem held_step (hheld : Held g) {e : Event} (horderly : orderly g e = true)
    (hstep : Gateway.step g e = some g') : Held g' := by
  cases e with
  | ptyOpen c o w minutes r => exact held_onOpen hheld (Option.ite_none_right_eq_some.mp hstep).2
  | openSettles o =>
    rw [Gateway.step] at hstep
    split at hstep
    next c hc =>
      exact held_onOpenSettles hheld hc horderly (Option.ite_none_left_eq_some.mp hstep).2
    next => cases hstep
  | ptyKeepalive c minutes =>
    obtain ⟨-, hstep⟩ := Option.ite_none_right_eq_some.mp hstep
    cases hstep
    rw [Gateway.onKeepalive]
    split
    · exact hheld
    · exact held_later hheld (kept_setKeepAlive hheld.kept _ _) (later_setKeepAlive _ _)
  | ptyClose c k => exact held_onClose hheld (Option.ite_none_right_eq_some.mp hstep).2
  | handleDisconnect c =>
    obtain ⟨-, hstep⟩ := Option.ite_none_right_eq_some.mp hstep
    cases hstep
    exact held_detachData hheld (fun _ _ => rfl) fun c' hc => Function.update_of_ne hc _ _
  | service action =>
    obtain ⟨hcalled, hstep⟩ := Option.ite_none_left_eq_some.mp hstep
    obtain ⟨s', hs', rfl⟩ := Option.map_eq_some_iff.mp hstep
    exact held_later hheld (kept_step hheld.kept hs')
      (later_step hheld.kept (Bool.eq_false_iff.mpr hcalled) hs')

theorem held_init : Held Gateway.init where
  kept := kept_init
  serves _ _ h := nomatch h
  opener _ h := absurd rfl h
  settled _ h := nomatch h
  waits _ _ h := nomatch h
  held _ _ _ h := nomatch h

/-! ## what follows -/

theorem closed_step {k : CloseId} {reason : JsString} (hk : g.pty.closes k = .closing p reason) :
    ∃ t, Gateway.step g (.service (.closed k)) = some t ∧ Ended t.pty p := by
  let s' := (g.pty.finish p (.exit (-1)) reason).setClose k .done
  have hs' : Service.step g.pty (.closed k) = some s' := by
    rw [Service.step, hk]
  refine ⟨{ g with pty := s' }, ?_, finish_ended (.exit (-1)) reason⟩
  show (Service.step g.pty (.closed k)).map _ = _
  rw [hs']
  rfl

theorem Held.nothingLeft (hheld : Held g) : NothingLeft g where
  detached c hgone p o hholds ho := by
    rcases hheld.held p o c hholds ho with h | ⟨hconnected, -⟩ | ⟨k, reason, hcloser, hk⟩
    · exact hgone.2 (Or.inl ⟨o, ho, h⟩)
    · rw [hgone.1] at hconnected
      cases hconnected
    · exact hgone.2 (Or.inr ⟨k, p, reason, hcloser, hk⟩)
  waits p session hp hended hgone := by
    cases hlistener : session.listener with
    | none => exact hheld.waits p session hp hended hlistener
    | some o =>
      exfalso
      have hholds : g.pty.holds p o = true := holds_iff.mpr ⟨session, hp, hended, hlistener⟩
      obtain ⟨c, hc⟩ := hheld.opener o (serves_ne_idle (hheld.serves p o hholds))
      obtain ⟨hgone, hpending⟩ := hgone o c hlistener hc
      rcases hheld.held p o c hholds hc with h | ⟨hconnected, -⟩ | ⟨k, reason, hcloser, hk⟩
      · exact hpending (Or.inl ⟨o, hc, h⟩)
      · rw [hgone] at hconnected
        cases hconnected
      · exact hpending (Or.inr ⟨k, p, reason, hcloser, hk⟩)
  expires p session k hp hended hrunning hk := by
    let new : Session := { session with detachTimer := .fired }
    let s₁ := (g.pty.put p new).beginClose k p (lit "sin app conectada")
    have h₁ : Service.step g.pty (.detachTimer p k) = some s₁ := by
      rw [Service.step, hp, hk]
      exact if_pos hrunning
    have hget : (g.pty.put p new).get p = some new := by
      rw [Service.get, if_pos]
      · exact Function.update_self _ _ _
      · exact (hheld.kept.live p session hp hended).1
    have hclosing : s₁.closes k = .closing p (lit "sin app conectada") := by
      show ((g.pty.put p new).beginClose k p (lit "sin app conectada")).closes k = _
      rw [beginClose, hget]
      dsimp only
      rw [if_pos hended]
      exact Function.update_self _ _ _
    obtain ⟨t, ht, hend⟩ := closed_step (g := { g with pty := s₁ }) hclosing
    refine ⟨t, Runs.run_cons_some.mpr ⟨{ g with pty := s₁ }, ?_,
      Runs.run_cons_some.mpr ⟨t, ht, rfl⟩⟩, hend⟩
    show (Service.step g.pty (.detachTimer p k)).map _ = _
    rw [h₁]
    rfl
  closes _ _ _ hk := closed_step hk

end

/-! ## runs -/

theorem nothing_left (es : List Event) (g : Gateway)
    (hguard : Runs.Guarded Gateway.step (fun g e => orderly g e = true) Gateway.init es)
    (hrun : Runs.run Gateway.step Gateway.init es = some g) : NothingLeft g :=
  (Runs.run_inv_guarded (fun _ _ _ hheld horderly hstep => held_step hheld horderly hstep) es Gateway.init g held_init hguard hrun).nothingLeft

/-- a terminal passes from one connection to another, both go, and its timer closes it -/
def handedOver : List Event :=
  [.ptyOpen 1 1 (lit "w") none (lit "r1"), .service (.audited 1), .service (.opened 1 (lit "p1")),
    .openSettles 1, .ptyOpen 2 2 (lit "w") (some 5) (lit "r2"), .service (.resized 2), .openSettles 2,
    .handleDisconnect 1, .handleDisconnect 2, .service (.detachTimer (lit "p1") 1),
    .service (.closed 1)]

theorem nothing_left_handedOver : ∃ g, Runs.run Gateway.step Gateway.init handedOver = some g ∧
    g.pty.finished.map Finish.ptyId = [lit "p1"] ∧ NothingLeft g := by
  have hrun : (Runs.run Gateway.step Gateway.init handedOver).map
      (fun g => g.pty.finished.map Finish.ptyId) = some [lit "p1"] := by decide
  obtain ⟨g, hg, hfinished⟩ := Option.map_eq_some_iff.mp hrun
  exact ⟨g, hg, hfinished, nothing_left handedOver g
    (Runs.guarded_of_checkAll (fun _ _ h => h) _ _ (by decide)) hg⟩

/-- the connection goes while its open is on the way -/
def goneMeanwhile : List Event :=
  [.ptyOpen 1 1 (lit "w") none (lit "r1"), .handleDisconnect 1, .service (.audited 1),
    .service (.opened 1 (lit "p1")), .openSettles 1]

/-- two opens of one connection at once: the second pair is written over the first -/
def twoAtOnce : List Event :=
  [.ptyOpen 1 1 (lit "w1") none (lit "r1"), .ptyOpen 1 2 (lit "w2") none (lit "r2"),
    .service (.audited 1), .service (.audited 2), .service (.opened 1 (lit "p1")),
    .service (.opened 2 (lit "p2")), .openSettles 1, .openSettles 2, .handleDisconnect 1]

/-- the session that is left, without a timer -/
def leftSession (workspaceId : WorkspaceId) : Session :=
  ⟨workspaceId, some 1, ptyKeepaliveDefaultMs, .null, .null, none, 0⟩

theorem gone_one {g : Gateway} {opener : OpenId → Option ClientId} {settled : OpenId → Bool}
    (hg : (g.opener, g.settled, g.closer) = (opener, settled, fun _ => none))
    (hconnected : g.connected 1 = false) (hsettled : ∀ o, opener o = none ∨ settled o = true) :
    Gone g 1 := by
  rw [Prod.mk.injEq, Prod.mk.injEq] at hg
  refine ⟨hconnected, ?_⟩
  rintro (⟨o, ho, hnot⟩ | ⟨k, p, reason, hk, -⟩)
  · rcases hsettled o with h | h
    · rw [hg.1, h] at ho
      cases ho
    · rw [hg.2.1, h] at hnot
      cases hnot
  · rw [hg.2.2] at hk
    cases hk

/-- a session is left with a connection that has gone, and no timer of it runs -/
theorem left_behind :
    (∃ g, Runs.run Gateway.step Gateway.init goneMeanwhile = some g ∧ Gone g 1 ∧
      g.pty.objects (lit "p1") = some (leftSession (lit "w")) ∧ g.opener 1 = some 1 ∧
      ¬ NothingLeft g) ∧
    (∃ g, Runs.run Gateway.step Gateway.init twoAtOnce = some g ∧ Gone g 1 ∧
      g.pty.objects (lit "p1") = some (leftSession (lit "w1")) ∧ g.opener 1 = some 1 ∧
      ¬ NothingLeft g) := by
  have hleft : ∀ {g : Gateway} {w : WorkspaceId}, Gone g 1 →
      g.pty.objects (lit "p1") = some (leftSession w) → g.opener 1 = some 1 → ¬ NothingLeft g :=
    fun hgone hp hopener hnothing =>
      hnothing.detached 1 hgone (lit "p1") 1 (holds_iff.mpr ⟨_, hp, rfl, rfl⟩) hopener
  have hfirst : (Runs.run Gateway.step Gateway.init goneMeanwhile).map
      (fun g => (g.connected 1, g.pty.objects (lit "p1"), g.opener 1))
      = some (false, some (leftSession (lit "w")), some 1) := by decide
  have hsecond : (Runs.run Gateway.step Gateway.init twoAtOnce).map
      (fun g => (g.connected 1, g.pty.objects (lit "p1"), g.opener 1))
      = some (false, some (leftSession (lit "w1")), some 1) := by decide
  have hfirst' : (Runs.run Gateway.step Gateway.init goneMeanwhile).map
      (fun g => (g.opener, g.settled, g.closer)) = some (Function.update (fun _ => none) 1 (some 1),
        Function.update (Function.update (fun _ => false) 1 false) 1 true, fun _ => none) := rfl
  have hsecond' : (Runs.run Gateway.step Gateway.init twoAtOnce).map
      (fun g => (g.opener, g.settled, g.closer)) = some
        (Function.update (Function.update (fun _ => none) 1 (some 1)) 2 (some 1),
        Function.update (Function.update (Function.update (Function.update (fun _ => false) 1 false)
          2 false) 1 true) 2 true, fun _ => none) := rfl
  constructor
  · obtain ⟨g, hg, hobserved⟩ := Option.map_eq_some_iff.mp hfirst
    rw [hg, Option.map_some, Option.some.injEq] at hfirst'
    rw [Prod.mk.injEq, Prod.mk.injEq] at hobserved
    obtain ⟨hconnected, hp, hopener⟩ := hobserved
    have hgone : Gone g 1 := gone_one hfirst' hconnected fun o => by
      by_cases ho : o = 1
      · exact Or.inr (by rw [ho, Function.update_self])
      · exact Or.inl (Function.update_of_ne ho _ _)
    exact ⟨g, hg, hgone, hp, hopener, hleft hgone hp hopener⟩
  · obtain ⟨g, hg, hobserved⟩ := Option.map_eq_some_iff.mp hsecond
    rw [hg, Option.map_some, Option.some.injEq] at hsecond'
    rw [Prod.mk.injEq, Prod.mk.injEq] at hobserved
    obtain ⟨hconnected, hp, hopener⟩ := hobserved
    have hgone : Gone g 1 := gone_one hsecond' hconnected fun o => by
      by_cases h2 : o = 2
      · exact Or.inr (by rw [h2, Function.update_self])
      · rw [Function.update_of_ne h2, Function.update_of_ne h2]
        by_cases h1 : o = 1
        · exact Or.inr (by rw [h1, Function.update_self])
        · exact Or.inl (Function.update_of_ne h1 _ _)
    exact ⟨g, hg, hgone, hp, hopener, hleft hgone hp hopener⟩

end Terminal.Pty
