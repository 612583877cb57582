import JinCore.Terminal.Registry

/-!
# One session for a workspace

An open reserves its workspace before its first await, and keeps the reservation until it has a session
or has failed.

* `RegistryOk`       one session that has not ended, what the map of the workspaces holds, and one end;
* `Kept`             the invariant; `Touches` is a step that neither opens nor ends a session;
* `kept_reserve`, `kept_endOpen`, `kept_failOpen`, `kept_finish`, `kept_step`;
* `registry_ok`.
-/

namespace Terminal.Pty
open JsString Common Service

/-- the call is between its reservation and its session -/
def InProgress (s : Service) (o : OpenId) (opening : Opening) : Prop :=
  s.opens o = .auditing opening ∨ s.opens o = .opening opening

structure RegistryOk (s : Service) : Prop where
  single : ∀ p q session session', s.objects p = some session → s.objects q = some session' →
    session.ended = none → session'.ended = none → session.workspaceId = session'.workspaceId → p = q
  mapped : ∀ workspaceId id, s.byWorkspace workspaceId = some id →
    (∃ session, s.get id = some session ∧ session.workspaceId = workspaceId ∧ session.ended = none) ∨
    ∃ o opening, InProgress s o opening ∧ opening.workspaceId = workspaceId ∧ opening.reservation = id
  /-- an open that fails leaves no reservation -/
  released : ∀ o opening t, InProgress s o opening → step s (.openFails o) = some t →
    t.byWorkspace opening.workspaceId = none
  /-- a workspace without a reservation can be opened -/
  reopens : ∀ o workspaceId keepAliveMs reservation ptyId, s.byWorkspace workspaceId = none →
    s.opens o = .idle → reservation ∉ s.used → ptyId ∉ reservation :: s.used →
    ∃ t, Runs.run step s [.openOrAttach o workspaceId keepAliveMs reservation, .audited o, .opened o ptyId]
      = some t ∧ t.opens o = .returned ptyId false
  once : (s.finished.map Finish.ptyId).Nodup

/-! ## the invariant -/

structure Kept (s : Service) : Prop where
  live : ∀ p session, s.objects p = some session → session.ended = none →
    s.sessions p = true ∧ s.byWorkspace session.workspaceId = some p
  mapped : ∀ workspaceId id, s.byWorkspace workspaceId = some id →
    (∃ session, s.objects id = some session ∧ session.workspaceId = workspaceId ∧
      session.ended = none) ∨
    ∃ o opening, InProgress s o opening ∧ opening.workspaceId = workspaceId ∧ opening.reservation = id
  progress : ∀ o opening, InProgress s o opening →
    s.byWorkspace opening.workspaceId = some opening.reservation ∧
      s.objects opening.reservation = none ∧ opening.reservation ∈ s.used
  apart : ∀ o o' opening opening', InProgress s o opening → InProgress s o' opening' →
    opening.workspaceId = opening'.workspaceId → o = o'
  used : ∀ p, s.objects p ≠ none → p ∈ s.used
  linger : ∀ p session, s.objects p = some session → session.lingerTimer ≠ .null →
    session.ended ≠ none
  finished : ∀ p ∈ s.finished.map Finish.ptyId, ∃ session, s.objects p = some session ∧
    session.ended ≠ none
  once : (s.finished.map Finish.ptyId).Nodup

/-- what of a session is of interest here -/
def Session.state (session : Session) : WorkspaceId × Option PtyEnd × Bool :=
  (session.workspaceId, session.ended, decide (session.lingerTimer = .null))

/-- a step that neither opens nor ends a session -/
structure Touches (s s' : Service) : Prop where
  objects : ∀ p, (s'.objects p).map Session.state = (s.objects p).map Session.state
  sessions : ∀ p session, s.objects p = some session → session.ended = none →
    s'.sessions p = s.sessions p
  byWorkspace : s'.byWorkspace = s.byWorkspace
  used : s'.used = s.used
  finished : s'.finished = s.finished
  progress : ∀ o opening, InProgress s' o opening ↔ InProgress s o opening

section
variable {s s' : Service} {o : OpenId} {p : PtyId} {session : Session}

theorem Touches.before (ht : Touches s s') (h : s'.objects p = some session) :
    ∃ old, s.objects p = some old ∧ old.workspaceId = session.workspaceId ∧
      old.ended = session.ended ∧ (session.lingerTimer ≠ .null → old.lingerTimer ≠ .null) := by
  have hstate := ht.objects p
  rw [h, Option.map_some] at hstate
  obtain ⟨old, hold, hsame⟩ := Option.map_eq_some_iff.mp hstate.symm
  rw [Session.state, Session.state, Prod.mk.injEq, Prod.mk.injEq] at hsame
  refine ⟨old, hold, hsame.1, hsame.2.1, fun hne hnull => hne ?_⟩
  exact of_decide_eq_true (hsame.2.2 ▸ decide_eq_true hnull)

theorem Touches.after (ht : Touches s s') (h : s.objects p = some session) :
    ∃ new, s'.objects p = some new ∧ new.workspaceId = session.workspaceId ∧
      new.ended = session.ended := by
  have hstate := ht.objects p
  rw [h, Option.map_some] at hstate
  obtain ⟨new, hnew, hsame⟩ := Option.map_eq_some_iff.mp hstate
  rw [Session.state, Session.state, Prod.mk.injEq, Prod.mk.injEq] at hsame
  exact ⟨new, hnew, hsame.1, hsame.2.1⟩

theorem Touches.none (ht : Touches s s') : s'.objects p = none ↔ s.objects p = none := by
  have hstate := ht.objects p
  rw [← Option.map_eq_none_iff (f := Session.state), hstate, Option.map_eq_none_iff]

theorem Kept.touch (hkept : Kept s) (ht : Touches s s') : Kept s' where
  live p session hp hended := by
    obtain ⟨old, hold, hworkspace, hsame, -⟩ := ht.before hp
    rw [hended] at hsame
    rw [ht.sessions p old hold hsame, ht.byWorkspace, ← hworkspace]
    exact hkept.live p old hold hsame
  mapped w id hid := by
    rw [ht.byWorkspace] at hid
    rcases hkept.mapped w id hid with ⟨old, hold, hw, hended⟩ | ⟨o, opening, hprogress, hw, hr⟩
    · obtain ⟨new, hnew, hw', hended'⟩ := ht.after hold
      exact Or.inl ⟨new, hnew, hw'.trans hw, hended'.trans hended⟩
    · exact Or.inr ⟨o, opening, (ht.progress o opening).mpr hprogress, hw, hr⟩
  progress o opening hprogress := by
    rw [ht.progress] at hprogress
    rw [ht.byWorkspace, ht.used, ht.none]
    exact hkept.progress o opening hprogress
  apart o o' opening opening' ho ho' :=
    hkept.apart o o' opening opening' ((ht.progress o opening).mp ho) ((ht.progress o' opening').mp ho')
  used p hp := by
    rw [ne_eq, ht.none] at hp
    rw [ht.used]
    exact hkept.used p hp
  linger p session hp hlinger := by
    obtain ⟨old, hold, -, hsame, hnull⟩ := ht.before hp
    rw [← hsame]
    exact hkept.linger p old hold (hnull hlinger)
  finished p hp := by
    rw [ht.finished] at hp
    obtain ⟨old, hold, hended⟩ := hkept.finished p hp
    obtain ⟨new, hnew, -, hended'⟩ := ht.after hold
    exact ⟨new, hnew, hended' ▸ hended⟩
  once := by
    rw [ht.finished]
    exact hkept.once

/-! ### steps that touch -/

theorem touches_put {new : Session} (hp : s.objects p = some session)
    (hstate : new.state = session.state) : Touches s (s.put p new) where
  objects q := by
    show (Function.update s.objects p (some new) q).map Session.state = _
    by_cases hq : q = p
    · rw [hq, Function.update_self, hp, Option.map_some, Option.map_some, hstate]
    · rw [Function.update_of_ne hq]
  sessions _ _ _ _ := rfl
  byWorkspace := rfl
  used := rfl
  finished := rfl
  progress _ _ := Iff.rfl

theorem inProgress_unique {opening opening' : Opening} (h : InProgress s o opening)
    (h' : InProgress s o opening') : opening = opening' := by
  rcases h with h | h <;> rcases h' with h' | h' <;> rw [h] at h' <;> cases h'
  · rfl
  · rfl

theorem inProgress_setOpen {phase : OpenPhase} {o' : OpenId} {opening : Opening} :
    InProgress (s.setOpen o phase) o' opening ↔
      if o' = o then phase = .auditing opening ∨ phase = .opening opening
      else InProgress s o' opening := by
  show (Function.update s.opens o phase o' = _ ∨ Function.update s.opens o phase o' = _) ↔ _
  by_cases ho : o' = o
  · rw [ho, Function.update_self, if_pos rfl]
  · rw [Function.update_of_ne ho, if_neg ho]
    rfl

theorem touches_setOpen {phase : OpenPhase} (hphase : ∀ opening,
    (phase = .auditing opening ∨ phase = .opening opening) ↔ InProgress s o opening) :
    Touches s (s.setOpen o phase) where
  objects _ := rfl
  sessions _ _ _ _ := rfl
  byWorkspace := rfl
  used := rfl
  finished := rfl
  progress o' opening := by
    rw [inProgress_setOpen]
    split
    next ho => rw [ho, hphase]
    next => rfl

theorem touches_setClose (k : CloseId) (phase : ClosePhase) : Touches s (s.setClose k phase) :=
  ⟨fun _ => rfl, fun _ _ _ _ => rfl, rfl, rfl, rfl, fun _ _ => Iff.rfl⟩

theorem kept_beginClose (hkept : Kept s) (k : CloseId) (p : PtyId) (reason : JsString) :
    Kept (s.beginClose k p reason) := by
  rw [beginClose]
  split
  · exact hkept.touch (touches_setClose k _)
  · exact hkept.touch (touches_setClose k _)

theorem get_objects (h : s.get p = some session) : s.objects p = some session := by
  rw [Service.get] at h
  split at h
  · exact h
  · cases h

theorem kept_detach (hkept : Kept s) (p : PtyId) (listener : OpenId) : Kept (s.onDetach p listener) := by
  rw [onDetach]
  split
  next session hsession =>
    split
    · exact hkept
    · refine hkept.touch (touches_put (get_objects hsession) ?_)
      split <;> rfl
  next => exact hkept

theorem kept_setKeepAlive (hkept : Kept s) (p : PtyId) (ms : Int) : Kept (s.onSetKeepAlive p ms) := by
  rw [onSetKeepAlive]
  split
  next session hsession =>
    split
    · exact hkept
    · refine hkept.touch (touches_put (get_objects hsession) ?_)
      split <;> rfl
  next => exact hkept

/-! ### an open -/

theorem kept_reserve (hkept : Kept s) {opening : Opening} (hidle : s.opens o = .idle)
    (hnone : s.byWorkspace opening.workspaceId = none) (hreserve : s.reserve o opening = some s') :
    Kept s' := by
  obtain ⟨hfresh, hreserve⟩ := Option.ite_none_left_eq_some.mp hreserve
  cases hreserve
  have hobject : s.objects opening.reservation = none := by
    by_contra hne
    exact hfresh (hkept.used _ hne)
  have hother : ∀ w, w ≠ opening.workspaceId → Function.update s.byWorkspace opening.workspaceId
      (some opening.reservation) w = s.byWorkspace w := fun w hw => Function.update_of_ne hw _ _
  -- the call itself, or one that was in progress before and has another workspace
  have hcases : ∀ o' opening', InProgress ({ s with
      byWorkspace := Function.update s.byWorkspace opening.workspaceId (some opening.reservation)
      used := opening.reservation :: s.used }.setOpen o (.auditing opening)) o' opening' →
      (o' = o ∧ opening' = opening) ∨
        (o' ≠ o ∧ InProgress s o' opening' ∧ opening'.workspaceId ≠ opening.workspaceId) := by
    intro o' opening' hprogress
    rw [inProgress_setOpen] at hprogress
    split at hprogress
    next ho =>
      rcases hprogress with h | h
      · cases h
        exact Or.inl ⟨ho, rfl⟩
      · cases h
    next ho =>
      have hold : InProgress s o' opening' := hprogress
      refine Or.inr ⟨ho, hold, fun hw => ?_⟩
      have hmap := (hkept.progress o' opening' hold).1
      rw [hw, hnone] at hmap
      cases hmap
  refine ⟨fun p session hp hended => ?_, fun w id hid => ?_, fun o' opening' hprogress => ?_,
    fun o' o'' opening' opening'' h' h'' hw => ?_, fun p hp => List.mem_cons_of_mem _ (hkept.used p hp),
    hkept.linger, hkept.finished, hkept.once⟩
  · obtain ⟨hsessions, hmap⟩ := hkept.live p session hp hended
    refine ⟨hsessions, (hother _ fun hw => ?_).trans hmap⟩
    rw [hw, hnone] at hmap
    cases hmap
  · by_cases hw : w = opening.workspaceId
    · subst hw
      cases (Function.update_self opening.workspaceId _ s.byWorkspace).symm.trans hid
      refine Or.inr ⟨o, opening, ?_, rfl, rfl⟩
      rw [inProgress_setOpen, if_pos rfl]
      exact Or.inl rfl
    · rcases hkept.mapped w id ((hother w hw).symm.trans hid) with hlive | ⟨o', opening', hprogress, hrest⟩
      · exact Or.inl hlive
      · refine Or.inr ⟨o', opening', ?_, hrest⟩
        rw [inProgress_setOpen, if_neg]
        · exact hprogress
        · rintro rfl
          rcases hprogress with h | h <;> rw [hidle] at h <;> cases h
  · rcases hcases o' opening' hprogress with ⟨-, rfl⟩ | ⟨-, hold, hw⟩
    · exact ⟨Function.update_self _ _ _, hobject, List.mem_cons_self⟩
    · obtain ⟨hmap, hobject', hused⟩ := hkept.progress o' opening' hold
      exact ⟨(hother _ hw).trans hmap, hobject', List.mem_cons_of_mem _ hused⟩
  · rcases hcases o' opening' h' with ⟨rfl, rfl⟩ | ⟨hne', hold', hw'⟩ <;>
      rcases hcases o'' opening'' h'' with ⟨rfl, rfl⟩ | ⟨hne'', hold'', hw''⟩
    · rfl
    · exact absurd hw.symm hw''
    · exact absurd hw hw'
    · exact hkept.apart o' o'' opening' opening'' hold' hold'' hw

/-- where an open is in progress, the workspace has no session that has not ended -/
theorem Kept.workspace_ne (hkept : Kept s) {opening : Opening} (hprogress : InProgress s o opening)
    (hp : s.objects p = some session) (hended : session.ended = none) :
    session.workspaceId ≠ opening.workspaceId := by
  intro hw
  obtain ⟨hmap, hnone, -⟩ := hkept.progress o opening hprogress
  have hlive := (hkept.live p session hp hended).2
  rw [hw, hmap, Option.some.injEq] at hlive
  rw [hlive, hp] at hnone
  cases hnone

/-- the calls that are left in progress when one of them has left -/
theorem Kept.leaves (hkept : Kept s) {opening opening' : Opening} {t : Service} {phase : OpenPhase}
    {o' : OpenId} (hprogress : InProgress s o opening) (h : InProgress (t.setOpen o phase) o' opening')
    (hopens : t.opens = s.opens)
    (hphase : ∀ opening, phase ≠ .auditing opening ∧ phase ≠ .opening opening) :
    o' ≠ o ∧ InProgress s o' opening' ∧ opening'.workspaceId ≠ opening.workspaceId := by
  rw [inProgress_setOpen] at h
  split at h
  next =>
    rcases h with h | h
    · exact absurd h (hphase opening').1
    · exact absurd h (hphase opening').2
  next ho =>
    have hold : InProgress s o' opening' := by
      rw [InProgress, ← hopens]
      exact h
    exact ⟨ho, hold, fun hw => ho (hkept.apart o' o opening' opening hold hprogress hw)⟩

theorem kept_endOpen (hkept : Kept s) {opening : Opening} (hprogress : InProgress s o opening)
    (hend : s.endOpen o opening p = some s') : Kept s' := by
  obtain ⟨hfresh, hend⟩ := Option.ite_none_left_eq_some.mp hend
  cases hend
  have hobject : s.objects p = none := by
    by_contra hne
    exact hfresh (hkept.used p hne)
  have hid : ∀ q, s.objects q ≠ none → q ≠ p := by
    rintro q hq rfl
    exact hq hobject
  have hotherId : ∀ q, q ≠ p → Function.update s.objects p (some (newSession opening o)) q
      = s.objects q := fun q hq => Function.update_of_ne hq _ _
  have hotherWorkspace : ∀ w, w ≠ opening.workspaceId → Function.update s.byWorkspace
      opening.workspaceId (some p) w = s.byWorkspace w := fun w hw => Function.update_of_ne hw _ _
  have hleaves : ∀ o' opening', InProgress ({ s with
      objects := Function.update s.objects p (some (newSession opening o))
      sessions := Function.update s.sessions p true
      byWorkspace := Function.update s.byWorkspace opening.workspaceId (some p)
      used := p :: s.used }.setOpen o (.returned p false)) o' opening' →
      o' ≠ o ∧ InProgress s o' opening' ∧ opening'.workspaceId ≠ opening.workspaceId :=
    fun _ _ h => hkept.leaves hprogress h rfl fun _ => ⟨OpenPhase.noConfusion, OpenPhase.noConfusion⟩
  refine ⟨fun q session hq hended => ?_, fun w id hmap => ?_, fun o' opening' h => ?_,
    fun o' o'' opening' opening'' h' h'' => hkept.apart o' o'' opening' opening'' (hleaves _ _ h').2.1
      (hleaves _ _ h'').2.1, fun q hq => ?_, fun q session hq hlinger => ?_, fun q hq => ?_, hkept.once⟩
  · by_cases hqp : q = p
    · subst hqp
      cases (Function.update_self q _ s.objects).symm.trans hq
      exact ⟨Function.update_self _ _ _, Function.update_self _ _ _⟩
    · have hold := (hotherId q hqp).symm.trans hq
      obtain ⟨hsessions, hlive⟩ := hkept.live q session hold hended
      refine ⟨(Function.update_of_ne hqp _ _).trans hsessions, (hotherWorkspace _ ?_).trans hlive⟩
      exact hkept.workspace_ne hprogress hold hended
  · by_cases hw : w = opening.workspaceId
    · subst hw
      cases (Function.update_self opening.workspaceId _ s.byWorkspace).symm.trans hmap
      exact Or.inl ⟨_, Function.update_self _ _ _, rfl, rfl⟩
    · rcases hkept.mapped w id ((hotherWorkspace w hw).symm.trans hmap) with
        ⟨session, hsession, hrest⟩ | ⟨o', opening', hold, hw', hr⟩
      · refine Or.inl ⟨session, (hotherId id (hid id ?_)).trans hsession, hrest⟩
        rw [hsession]
        exact Option.some_ne_none _
      · refine Or.inr ⟨o', opening', ?_, hw', hr⟩
        rw [inProgress_setOpen, if_neg]
        · exact hold
        · rintro rfl
          exact hw (by rw [← hw', inProgress_unique hold hprogress])
  · obtain ⟨-, hold, hw⟩ := hleaves o' opening' h
    obtain ⟨hmap, hnone, hused⟩ := hkept.progress o' opening' hold
    have hne : opening'.reservation ≠ p := by
      rintro rfl
      exact hfresh hused
    exact ⟨(hotherWorkspace _ hw).trans hmap, (hotherId _ hne).trans hnone,
      List.mem_cons_of_mem _ hused⟩
  · by_cases hqp : q = p
    · rw [hqp]
      exact List.mem_cons_self
    · exact List.mem_cons_of_mem _ (hkept.used q fun hnone => hq ((hotherId q hqp).trans hnone))
  · by_cases hqp : q = p
    · subst hqp
      cases (Function.update_self q _ s.objects).symm.trans hq
      exact absurd rfl hlinger
    · exact hkept.linger q session ((hotherId q hqp).symm.trans hq) hlinger
  · obtain ⟨session, hsession, hended⟩ := hkept.finished q hq
    refine ⟨session, (hotherId q (hid q ?_)).trans hsession, hended⟩
    rw [hsession]
    exact Option.some_ne_none _

theorem kept_failOpen (hkept : Kept s) {opening : Opening} (hprogress : InProgress s o opening) :
    Kept (s.failOpen o opening) := by
  have hmap := (hkept.progress o opening hprogress).1
  rw [failOpen, if_pos hmap]
  have hother : ∀ w, w ≠ opening.workspaceId → Function.update s.byWorkspace opening.workspaceId
      none w = s.byWorkspace w := fun w hw => Function.update_of_ne hw _ _
  have hleaves : ∀ o' opening', InProgress ({ s with
      byWorkspace := Function.update s.byWorkspace opening.workspaceId none }.setOpen o (.threw none))
      o' opening' →
      o' ≠ o ∧ InProgress s o' opening' ∧ opening'.workspaceId ≠ opening.workspaceId :=
    fun _ _ h => hkept.leaves hprogress h rfl fun _ => ⟨OpenPhase.noConfusion, OpenPhase.noConfusion⟩
  refine ⟨fun q session hq hended => ?_, fun w id hid => ?_, fun o' opening' h => ?_,
    fun o' o'' opening' opening'' h' h'' => hkept.apart o' o'' opening' opening'' (hleaves _ _ h').2.1
      (hleaves _ _ h'').2.1, hkept.used, hkept.linger, hkept.finished, hkept.once⟩
  · obtain ⟨hsessions, hlive⟩ := hkept.live q session hq hended
    exact ⟨hsessions, (hother _ (hkept.workspace_ne hprogress hq hended)).trans hlive⟩
  · by_cases hw : w = opening.workspaceId
    · subst hw
      cases (Function.update_self opening.workspaceId _ s.byWorkspace).symm.trans hid
    · rcases hkept.mapped w id ((hother w hw).symm.trans hid) with hlive | ⟨o', opening', hold, hw', hr⟩
      · exact Or.inl hlive
      · refine Or.inr ⟨o', opening', ?_, hw', hr⟩
        rw [inProgress_setOpen, if_neg]
        · exact hold
        · rintro rfl
          exact hw (by rw [← hw', inProgress_unique hold hprogress])
  · obtain ⟨-, hold, hw⟩ := hleaves o' opening' h
    obtain ⟨hmap', hrest⟩ := hkept.progress o' opening' hold
    exact ⟨(hother _ hw).trans hmap', hrest⟩

/-! ### the end of a session -/

theorem kept_finish (hkept : Kept s) (p : PtyId) (event : PtyEnd) (reason : JsString) :
    Kept (s.finish p event reason) := by
  rw [finish]
  split
  next => exact hkept
  next session hp =>
    split
    next => exact hkept
    next hended =>
      have hended : session.ended = none := not_not.mp hended
      have hmap := (hkept.live p session hp hended).2
      rw [if_pos hmap]
      have hother : ∀ w, w ≠ session.workspaceId → Function.update s.byWorkspace session.workspaceId
          none w = s.byWorkspace w := fun w hw => Function.update_of_ne hw _ _
      -- the objects are those from before, but for the session that ends
      have hcases : ∀ {q x}, Function.update s.objects p (some { session with
          ended := some event, detachTimer := .null, lingerTimer := .running }) q = some x →
          (q = p ∧ x.ended ≠ none) ∨ (q ≠ p ∧ s.objects q = some x) := by
        intro q x hx
        by_cases hq : q = p
        · subst hq
          cases (Function.update_self q _ s.objects).symm.trans hx
          exact Or.inl ⟨rfl, Option.some_ne_none _⟩
        · exact Or.inr ⟨hq, (Function.update_of_ne hq _ _).symm.trans hx⟩
      refine ⟨fun q x hq hxended => ?_, fun w id hid => ?_, fun o opening h => ?_, hkept.apart,
        fun q hq => ?_, fun q x hq hlinger => ?_, fun q hq => ?_, ?_⟩
      · rcases hcases hq with ⟨-, hne⟩ | ⟨hqp, hold⟩
        · exact absurd hxended hne
        · obtain ⟨hsessions, hlive⟩ := hkept.live q x hold hxended
          refine ⟨hsessions, (hother _ fun hw => hqp ?_).trans hlive⟩
          rw [hw, hmap, Option.some.injEq] at hlive
          exact hlive.symm
      · by_cases hw : w = session.workspaceId
        · subst hw
          cases (Function.update_self session.workspaceId _ s.byWorkspace).symm.trans hid
        · rcases hkept.mapped w id ((hother w hw).symm.trans hid) with ⟨x, hx, hxw, hxended⟩ | hprogress
          · refine Or.inl ⟨x, (Function.update_of_ne ?_ _ _).trans hx, hxw, hxended⟩
            rintro rfl
            rw [hp] at hx
            cases hx
            exact hw hxw.symm
          · exact Or.inr hprogress
      · obtain ⟨hmap', hnone, hused⟩ := hkept.progress o opening h
        have hw := hkept.workspace_ne h hp hended
        refine ⟨(hother _ (Ne.symm hw)).trans hmap', (Function.update_of_ne ?_ _ _).trans hnone, hused⟩
        rintro hr
        rw [hr, hp] at hnone
        cases hnone
      · by_cases hqp : q = p
        · rw [hqp]
          refine hkept.used p ?_
          rw [hp]
          exact Option.some_ne_none _
        · exact hkept.used q fun hnone => hq ((Function.update_of_ne hqp _ _).trans hnone)
      · rcases hcases hq with ⟨-, hne⟩ | ⟨-, hold⟩
        · exact hne
        · exact hkept.linger q x hold hlinger
      · rcases List.mem_cons.mp hq with rfl | hq
        · exact ⟨_, Function.update_self _ _ _, Option.some_ne_none _⟩
        · obtain ⟨x, hx, hxended⟩ := hkept.finished q hq
          refine ⟨x, (Function.update_of_ne ?_ _ _).trans hx, hxended⟩
          rintro rfl
          rw [hp] at hx
          cases hx
          exact hxended hended
      · refine List.nodup_cons.mpr ⟨fun hmem => ?_, hkept.once⟩
        obtain ⟨x, hx, hxended⟩ := hkept.finished p hmem
        rw [hp] at hx
        cases hx
        exact hxended hended

/-! ### every step -/

theorem kept_beginOpen (hkept : Kept s) {w : WorkspaceId} {keepAliveMs : Option Int} {r : PtyId}
    (hidle : s.opens o = .idle) (hbegin : s.beginOpen o w keepAliveMs r = some s') : Kept s' := by
  have hnot : ∀ phase : OpenPhase, (∀ opening, phase ≠ .auditing opening ∧ phase ≠ .opening opening) →
      ∀ opening, (phase = .auditing opening ∨ phase = .opening opening) ↔ InProgress s o opening := by
    intro phase hphase opening
    constructor
    · rintro (h | h)
      · exact absurd h (hphase opening).1
      · exact absurd h (hphase opening).2
    · rintro (h | h) <;> rw [hidle] at h <;> cases h
  rw [beginOpen] at hbegin
  split at hbegin
  next hnone => exact kept_reserve hkept hidle hnone hbegin
  next existingId hexisting =>
    split at hbegin
    next =>
      cases hbegin
      refine hkept.touch (touches_setOpen (hnot _ fun _ => ?_))
      exact ⟨OpenPhase.noConfusion, OpenPhase.noConfusion⟩
    next existing hget =>
      split at hbegin
      next hended =>
        cases hbegin
        have hput := hkept.touch (touches_put (get_objects hget)
          (show (resumeSession existing o keepAliveMs).state = existing.state from rfl))
        refine hput.touch (touches_setOpen (hnot _ fun _ => ?_))
        exact ⟨OpenPhase.noConfusion, OpenPhase.noConfusion⟩
      next hended =>
        -- a workspace is not mapped to a session that has ended
        exfalso
        rcases hkept.mapped w existingId hexisting with ⟨x, hx, -, hxended⟩ | ⟨o', opening, h, -, hr⟩
        · rw [get_objects hget] at hx
          cases hx
          exact hended hxended
        · have hnone := (hkept.progress o' opening h).2.1
          rw [hr, get_objects hget] at hnone
          cases hnone

theorem kept_step (hkept : Kept s) {a : Action} (hstep : step s a = some s') : Kept s' := by
  cases a with
  | openOrAttach o w keepAliveMs r =>
    rw [Service.step] at hstep
    split at hstep
    next hidle => exact kept_beginOpen hkept hidle hstep
    next => cases hstep
  | audited o =>
    rw [Service.step] at hstep
    split at hstep
    next opening hphase =>
      cases hstep
      refine hkept.touch (touches_setOpen fun opening' => ?_)
      rw [InProgress, hphase]
      simp
    next => cases hstep
  | opened o p =>
    rw [Service.step] at hstep
    split at hstep
    next opening hphase => exact kept_endOpen hkept (Or.inr hphase) hstep
    next => cases hstep
  | openFails o =>
    rw [Service.step] at hstep
    split at hstep
    next opening hphase =>
      cases hstep
      exact kept_failOpen hkept (Or.inl hphase)
    next opening hphase =>
      cases hstep
      exact kept_failOpen hkept (Or.inr hphase)
    next => cases hstep
  | resized o =>
    rw [Service.step] at hstep
    split at hstep
    next p hphase =>
      cases hstep
      refine hkept.touch (touches_setOpen fun opening' => ?_)
      rw [InProgress, hphase]
      simp
    next => cases hstep
  | detach p listener =>
    cases hstep
    exact kept_detach hkept p listener
  | setKeepAlive p ms =>
    cases hstep
    exact kept_setKeepAlive hkept p ms
  | close k p =>
    rw [Service.step] at hstep
    split at hstep
    next =>
      cases hstep
      exact kept_beginClose hkept k p _
    next => cases hstep
  | closed k =>
    rw [Service.step] at hstep
    split at hstep
    next p reason hphase =>
      cases hstep
      exact (kept_finish hkept p _ _).touch (touches_setClose k _)
    next => cases hstep
  | detachTimer p k =>
    rw [Service.step] at hstep
    split at hstep
    next session hp hphase =>
      obtain ⟨-, hstep⟩ := Option.ite_none_right_eq_some.mp hstep
      cases hstep
      have hput : Touches s (s.put p { session with detachTimer := .fired }) := touches_put hp rfl
      exact kept_beginClose (hkept.touch hput) k p _
    next => cases hstep
  | lingerTimer p =>
    rw [Service.step] at hstep
    split at hstep
    next session hp =>
      obtain ⟨hrunning, hstep⟩ := Option.ite_none_right_eq_some.mp hstep
      cases hstep
      have hlinger : session.lingerTimer ≠ .null := by
        rw [hrunning]
        exact Timer.noConfusion
      have hput : Touches s (s.put p { session with lingerTimer := .fired }) := by
        refine touches_put hp ?_
        rw [Session.state, Session.state, hrunning]
        rfl
      refine hkept.touch ⟨hput.objects, fun q x hq hended => ?_, rfl, rfl, rfl, hput.progress⟩
      refine Function.update_of_ne ?_ _ _
      rintro rfl
      rw [hp] at hq
      cases hq
      exact hkept.linger q session hp hlinger hended
    next => cases hstep
  | pumpAnswered p =>
    obtain ⟨session, hp, rfl⟩ := Option.map_eq_some_iff.mp hstep
    exact hkept.touch (touches_put hp rfl)
  | pumpFails p notFound =>
    obtain ⟨session, hp, rfl⟩ := Option.map_eq_some_iff.mp hstep
    rw [onPumpFails]
    split
    · exact hkept
    · split
      · exact kept_finish hkept p _ _
      · split
        · exact kept_finish hkept p _ _
        · exact hkept.touch (touches_put hp rfl)
  | outputLine p =>
    obtain ⟨session, hp, rfl⟩ := Option.map_eq_some_iff.mp hstep
    refine hkept.touch (touches_put hp ?_)
    rw [onOutputLine]
    split <;> rfl
  | exitLine p code =>
    obtain ⟨session, hp, rfl⟩ := Option.map_eq_some_iff.mp hstep
    exact kept_finish hkept p _ _
  | errorLine p message =>
    obtain ⟨session, hp, rfl⟩ := Option.map_eq_some_iff.mp hstep
    exact kept_finish hkept p _ _

theorem kept_init : Kept init where
  live _ _ h := nomatch h
  mapped _ _ h := nomatch h
  progress _ _ h := by rcases h with h | h <;> cases h
  apart _ _ _ _ h := by rcases h with h | h <;> cases h
  used _ h := absurd rfl h
  linger _ _ h := nomatch h
  finished _ h := absurd h List.not_mem_nil
  once := List.nodup_nil

/-- every run keeps the invariant -/
theorem kept_run (as : List Action) (hrun : Runs.run step init as = some s) : Kept s :=
  Runs.run_inv (fun _ _ _ hs hstep => kept_step hs hstep) as init s kept_init hrun

/-! ## what follows -/

theorem failOpen_byWorkspace (hkept : Kept s) {opening : Opening} (hprogress : InProgress s o opening) :
    (s.failOpen o opening).byWorkspace opening.workspaceId = none := by
  rw [failOpen, if_pos (hkept.progress o opening hprogress).1]
  exact Function.update_self _ _ _

/-- an open of a workspace without a reservation returns a new session, if nothing fails -/
theorem run_open {w : WorkspaceId} {keepAliveMs : Option Int} {r : PtyId}
    (hnone : s.byWorkspace w = none) (hidle : s.opens o = .idle) (hr : r ∉ s.used)
    (hp : p ∉ r :: s.used) : ∃ t, Runs.run step s
      [.openOrAttach o w keepAliveMs r, .audited o, .opened o p] = some t ∧
        t.opens o = .returned p false := by
  let opening : Opening := ⟨w, clampKeepAlive keepAliveMs, r⟩
  let s₁ : Service := { s with
    byWorkspace := Function.update s.byWorkspace w (some r), used := r :: s.used }.setOpen o
      (.auditing opening)
  have h₁ : step s (.openOrAttach o w keepAliveMs r) = some s₁ := by
    rw [Service.step, hidle]
    show s.beginOpen o w keepAliveMs r = some s₁
    rw [beginOpen, hnone]
    exact if_neg hr
  let s₂ := s₁.setOpen o (.opening opening)
  have h₂ : step s₁ (.audited o) = some s₂ := by
    have hphase : s₁.opens o = .auditing opening := Function.update_self _ _ _
    rw [Service.step, hphase]
  have hphase : s₂.opens o = .opening opening := Function.update_self _ _ _
  let s₃ : Service := { s₂ with
    objects := Function.update s₂.objects p (some (newSession opening o))
    sessions := Function.update s₂.sessions p true
    byWorkspace := Function.update s₂.byWorkspace w (some p), used := p :: s₂.used }.setOpen o
      (.returned p false)
  have h₃ : step s₂ (.opened o p) = some s₃ := by
    have hp₂ : p ∉ s₂.used := hp
    rw [Service.step, hphase]
    exact if_neg hp₂
  have hrun : Runs.run step s [.openOrAttach o w keepAliveMs r, .audited o, .opened o p] = some s₃ :=
    Runs.run_cons_some.mpr ⟨s₁, h₁, Runs.run_cons_some.mpr ⟨s₂, h₂,
      Runs.run_cons_some.mpr ⟨s₃, h₃, rfl⟩⟩⟩
  exact ⟨s₃, hrun, Function.update_self _ _ _⟩

theorem Kept.registryOk (hkept : Kept s) : RegistryOk s where
  single p q session session' hp hq hended hended' hw := by
    have h := (hkept.live p session hp hended).2
    rw [hw, (hkept.live q session' hq hended').2, Option.some.injEq] at h
    exact h.symm
  mapped w id hid := by
    rcases hkept.mapped w id hid with ⟨session, hsession, hw, hended⟩ | hprogress
    · refine Or.inl ⟨session, ?_, hw, hended⟩
      rw [Service.get, if_pos (hkept.live id session hsession hended).1]
      exact hsession
    · exact Or.inr hprogress
  released o opening t hprogress hstep := by
    have ht : t = s.failOpen o opening := by
      rcases hprogress with h | h
      · rw [Service.step, h, Option.some.injEq] at hstep
        exact hstep.symm
      · rw [Service.step, h, Option.some.injEq] at hstep
        exact hstep.symm
    rw [ht]
    exact failOpen_byWorkspace hkept hprogress
  reopens _ _ _ _ _ hnone hidle hr hp := run_open hnone hidle hr hp
  once := hkept.once

end

/-! ## runs -/

theorem registry_ok (as : List Action) (s : Service) (hrun : Runs.run step init as = some s) :
    RegistryOk s :=
  (kept_run as hrun).registryOk

/-- an open that fails, one that succeeds, a second client, and the shell ends while it is closed -/
def openTwice : List Action :=
  [.openOrAttach 1 (lit "w") none (lit "r1"), .audited 1, .openFails 1,
    .openOrAttach 2 (lit "w") none (lit "r2"), .audited 2, .opened 2 (lit "p1"),
    .openOrAttach 3 (lit "w") none (lit "r3"), .resized 3, .close 1 (lit "p1"), .exitLine (lit "p1") 0,
    .closed 1, .lingerTimer (lit "p1")]

theorem registry_ok_openTwice : ∃ s, Runs.run step init openTwice = some s ∧
    s.finished.map Finish.ptyId = [lit "p1"] ∧ RegistryOk s := by
  have hrun : (Runs.run step init openTwice).map (fun s => s.finished.map Finish.ptyId)
      = some [lit "p1"] := by decide
  obtain ⟨s, hs, hfinished⟩ := Option.map_eq_some_iff.mp hrun
  exact ⟨s, hs, hfinished, registry_ok openTwice s hs⟩

end Terminal.Pty
