import JinCore.ExecutorClient.OwnerPublish

/-!
# Two states that differ in environment values only

* `SameNames`, `SameEntry`, `SameVault`   two maps of variables with the same names, two vaults;
* `takeEnv_same`, `startPreviewService_same`   the executor on two vaults;
* `SameInput`, `SamePc`, `SameObserved`, `SameAction`   what `publish` holds and lets out, and the labels;
* `Hidden`           two states that differ in values only;
* `hidden_step`      a label that differs in values only keeps them so; `hidden_init`.
-/

namespace ExecutorClient.OwnerPublish
open JsString Common Hitl Audit Runs PendingApprovals

/-! ## two vaults -/

def SameNames (env env' : Env) : Prop := env.map Prod.fst = env'.map Prod.fst

def SameEntry (a b : VaultEntry) : Prop :=
  a.requestId = b.requestId ∧ a.expiresAt = b.expiresAt ∧ SameNames a.env b.env

def SameVault (v v' : EnvVault) : Prop := Table.Alike SameEntry v.entries v'.entries

section
variable {v v' : EnvVault} {env env' : Env}

theorem sameNames_nil (h : SameNames env env') : env = [] ↔ env' = [] := by
  rw [← List.map_eq_nil_iff (f := Prod.fst), h, List.map_eq_nil_iff]

theorem SameVault.discard (h : SameVault v v') (requestId : JsString) :
    SameVault (v.discard requestId) (v'.discard requestId) :=
  Table.Alike.erase (fun _ _ hab => hab.1) h requestId

theorem SameVault.purge (h : SameVault v v') (nowMs : Int) : SameVault (v.purge nowMs) (v'.purge nowMs) :=
  Table.Alike.keep h fun a b hab => by rw [hab.2.1]

theorem SameVault.get (h : SameVault v v') (requestId : JsString) :
    Option.Rel SameEntry (v.get requestId) (v'.get requestId) :=
  Table.Alike.get (fun _ _ hab => hab.1) h requestId

theorem SameVault.get_none (h : SameVault v v') (requestId : JsString) :
    v.get requestId = none ↔ v'.get requestId = none := by
  have hget := h.get requestId
  cases hv : v.get requestId with
  | none =>
    rw [hv] at hget
    cases hv' : v'.get requestId with
    | none => exact Iff.rfl
    | some entry =>
      rw [hv'] at hget
      cases hget
  | some entry =>
    rw [hv] at hget
    cases hv' : v'.get requestId with
    | none =>
      rw [hv'] at hget
      cases hget
    | some entry' => exact ⟨nofun, nofun⟩

theorem SameVault.put (h : SameVault v v') (henv : SameNames env env') (requestId : JsString)
    (nowMs : Int) : (v.put requestId env nowMs).1 = (v'.put requestId env' nowMs).1 ∧
      SameVault (v.put requestId env nowMs).2 (v'.put requestId env' nowMs).2 := by
  have hpurge := h.purge nowMs
  have hsize : (v.purge nowMs).size = (v'.purge nowMs).size := Table.Alike.length hpurge
  have hfull : (maxEntries ≤ (v.purge nowMs).size ∧ (v.purge nowMs).get requestId = none) ↔
      (maxEntries ≤ (v'.purge nowMs).size ∧ (v'.purge nowMs).get requestId = none) := by
    rw [hsize, hpurge.get_none]
  unfold EnvVault.put
  dsimp only
  by_cases hif : maxEntries ≤ (v.purge nowMs).size ∧ (v.purge nowMs).get requestId = none
  · rw [if_pos hif, if_pos (hfull.mp hif)]
    exact ⟨rfl, hpurge⟩
  · rw [if_neg hif, if_neg fun hif' => hif (hfull.mpr hif')]
    refine ⟨rfl, Table.Alike.set (fun _ _ hab => hab.1) hpurge ?_⟩
    exact ⟨rfl, rfl, henv⟩

theorem SameVault.take (h : SameVault v v') (requestId : JsString) (nowMs : Int) :
    Option.Rel SameNames (v.take requestId nowMs).1 (v'.take requestId nowMs).1 ∧
      SameVault (v.take requestId nowMs).2 (v'.take requestId nowMs).2 := by
  rw [EnvVault.take_snd, EnvVault.take_snd]
  refine ⟨?_, h.discard requestId⟩
  have hget := h.get requestId
  unfold EnvVault.take
  generalize v.get requestId = found at hget
  generalize v'.get requestId = found' at hget
  cases hget with
  | none => exact .none
  | @some a b hab =>
    dsimp only
    rw [← hab.2.1]
    split
    · exact .none
    · exact .some hab.2.2

end

/-! ## two runs of the executor -/

/-- two requests that differ in values only -/
structure SameRequest (r r' : StartPreviewServiceInput) : Prop where
  rest : { r with env := none } = { r' with env := none }
  env : Option.Rel SameNames r.env r'.env

inductive SameAnswer : Except JsString StartPreviewServiceInput →
    Except JsString StartPreviewServiceInput → Prop
  | error (message : JsString) : SameAnswer (.error message) (.error message)
  | ok {r r' : StartPreviewServiceInput} (h : SameRequest r r') : SameAnswer (.ok r) (.ok r')

theorem takeEnv_same {v v' : EnvVault} (h : SameVault v v') (names : List JsString)
    (requestId : JsString) (now : Int) :
    SameVault (takeEnv v names requestId now).2 (takeEnv v' names requestId now).2 ∧
      ((∃ message, (takeEnv v names requestId now).1 = .error message ∧
          (takeEnv v' names requestId now).1 = .error message) ∨
        ∃ env env', SameNames env env' ∧ (takeEnv v names requestId now).1 = .ok env ∧
          (takeEnv v' names requestId now).1 = .ok env') := by
  obtain ⟨htake, hvault⟩ := h.take requestId now
  unfold takeEnv
  revert hvault htake
  generalize v.take requestId now = taken
  generalize v'.take requestId now = taken'
  obtain ⟨found, w⟩ := taken
  obtain ⟨found', w'⟩ := taken'
  intro htake hvault
  dsimp only at htake hvault
  cases htake with
  | none => exact ⟨hvault, Or.inl ⟨_, rfl, rfl⟩⟩
  | @some env env' henv =>
    refine ⟨hvault, ?_⟩
    dsimp only
    rw [← henv]
    split
    · exact Or.inr ⟨env, env', henv, rfl, rfl⟩
    · exact Or.inl ⟨_, rfl, rfl⟩

theorem startPreviewService_same (parseJson : JsString → Option JsonValue) {v v' : EnvVault}
    (h : SameVault v v') (payload : Except JsString PreviewServiceToolInput) (requestId : JsString)
    (now : Int) :
    SameAnswer (startPreviewService parseJson v payload requestId now).1
        (startPreviewService parseJson v' payload requestId now).1 ∧
      SameVault (startPreviewService parseJson v payload requestId now).2
        (startPreviewService parseJson v' payload requestId now).2 := by
  unfold startPreviewService
  cases payload with
  | error message => exact ⟨.error message, h⟩
  | ok payload =>
    dsimp only
    cases expandPreviewTemplate parseJson payload with
    | error message => exact ⟨.error message, h⟩
    | ok input =>
      dsimp only
      cases payload.envNames.getD [] with
      | nil =>
        refine ⟨.ok ⟨rfl, ?_⟩, h⟩
        dsimp only
        cases input.env with
        | none => exact .none
        | some env => exact .some rfl
      | cons name names =>
        obtain ⟨hvault, htaken⟩ := takeEnv_same h (name :: names) requestId now
        dsimp only
        revert hvault htaken
        generalize takeEnv v (name :: names) requestId now = taken
        generalize takeEnv v' (name :: names) requestId now = taken'
        obtain ⟨answer, w⟩ := taken
        obtain ⟨answer', w'⟩ := taken'
        intro hvault htaken
        dsimp only at hvault htaken
        obtain ⟨message, rfl, rfl⟩ | ⟨env, env', henv, rfl, rfl⟩ := htaken
        · exact ⟨.error message, hvault⟩
        · exact ⟨.ok ⟨rfl, .some henv⟩, hvault⟩

/-! ## two states -/

/-- the same input, but for the values -/
def SameInput (p p' : PublishInput) : Prop := p.rest = p'.rest ∧ SameNames p.values p'.values

inductive SamePc : PublishPc → PublishPc → Prop
  | same (pc : PublishPc) : SamePc pc pc
  | deciding {p p' : PublishInput} (h : SameInput p p') : SamePc (.deciding p) (.deciding p')

inductive SameObserved : Observed → Observed → Prop
  | same (event : Observed) : SameObserved event event
  | request (requestId : JsString) {r r' : StartPreviewServiceInput} (h : SameRequest r r') :
      SameObserved (.startPreviewService requestId r) (.startPreviewService requestId r')

/-- two states with the same rows, audits, events and outcomes, and the same requests but for the
values -/
structure Hidden (s t : Demos) : Prop where
  system : s.system = t.system
  vault : SameVault s.vault t.vault
  publishing : ∀ id, SamePc (s.publishing id) (t.publishing id)
  error : s.error = t.error
  thrown : s.thrown = t.thrown
  issued : s.issued = t.issued
  observed : List.Forall₂ SameObserved s.observed t.observed

/-- the same label, but for accepted values under the same names -/
inductive SameAction : Action → Action → Prop
  | same (a : Action) : SameAction a a
  | publish (id : CallId) (rest : PreviewServiceToolInput) {env env' : Env} (h : SameNames env env')
      (hok : validateDemoEnv env = []) (hok' : validateDemoEnv env' = []) :
      SameAction (.publish id ⟨rest, some env⟩) (.publish id ⟨rest, some env'⟩)

section
variable {s s' t : Demos} {id : CallId} {p p' : PublishInput}

theorem SameInput.envNames (h : SameInput p p') : p.envNames = p'.envNames := h.2

theorem SameInput.toolInput (h : SameInput p p') : p.toolInput = p'.toolInput := by
  unfold PublishInput.toolInput
  rw [h.1, h.envNames]

theorem Hidden.deciding (h : Hidden s s') (hpc : s.publishing id = .deciding p) :
    ∃ p', s'.publishing id = .deciding p' ∧ SameInput p p' := by
  have hsame := h.publishing id
  rw [hpc] at hsame
  generalize hpc' : s'.publishing id = pc' at hsame
  cases hsame with
  | same => exact ⟨p, rfl, rfl, rfl⟩
  | deciding hp => exact ⟨_, rfl, hp⟩

theorem Hidden.other (h : Hidden s s') (hpc : ∀ p, s.publishing id ≠ .deciding p) :
    s'.publishing id = s.publishing id := by
  have hsame := h.publishing id
  generalize s.publishing id = pc at hsame hpc
  generalize s'.publishing id = pc' at hsame
  cases hsame with
  | same => rfl
  | deciding => exact absurd rfl (hpc _)

theorem Hidden.goOn (h : Hidden s s') (id : CallId) {pc pc' : PublishPc} (hpc : SamePc pc pc') :
    Hidden (s.goOn id pc) (s'.goOn id pc') := by
  refine { h with publishing := fun i => ?_ }
  show SamePc (Function.update s.publishing id pc i) (Function.update s'.publishing id pc' i)
  by_cases hi : i = id
  · rw [hi, Function.update_self, Function.update_self]
    exact hpc
  · rw [Function.update_of_ne hi, Function.update_of_ne hi]
    exact h.publishing i

theorem Hidden.observe (h : Hidden s s') {event event' : Observed} (he : SameObserved event event') :
    Hidden (s.observe event) (s'.observe event') := { h with observed := .cons he h.observed }

theorem Hidden.withVault (h : Hidden s s') {v v' : EnvVault} (hv : SameVault v v') :
    Hidden { s with vault := v } { s' with vault := v' } := { h with vault := hv }

theorem Hidden.withSystem (h : Hidden s s') (system : System) :
    Hidden { s with system := system } { s' with system := system } := { h with system := rfl }

theorem Hidden.discarded (h : Hidden s s') (id : CallId) (requestId message : JsString) :
    Hidden (s.discarded id requestId message) (s'.discarded id requestId message) :=
  (h.goOn id (.same _)).withVault (h.vault.discard requestId)

theorem Hidden.issue (h : Hidden s s') (requestId : JsString) (env env' : Env) :
    Hidden (s.issue requestId env) (s'.issue requestId env') :=
  { h with issued := congrArg (requestId :: ·) h.issued }

end

/-! ## the labels -/

section
variable {parseJson : JsString → Option JsonValue} {stringify : PreviewServiceToolInput → JsString}
  {readPayload : Option JsString → Except JsString PreviewServiceToolInput} {sha256 : JsString → JsString}
  {s s' t : Demos} {id : CallId} {p p' : PublishInput}

theorem hidden_onPublish (h : Hidden s s') (hp : SameInput p p')
    (hproblems : validateDemoEnv p.values = validateDemoEnv p'.values)
    (hstep : s.onPublish parseJson id p = some t) :
    ∃ t', s'.onPublish parseJson id p' = some t' ∧ Hidden t t' := by
  unfold Demos.onPublish at hstep ⊢
  rw [← hproblems, ← hp.toolInput, ← h.system]
  split at hstep
  next hpc hidle =>
    rw [h.other (by rw [hpc]; exact fun _ => PublishPc.noConfusion), hpc, hidle]
    dsimp only
    cases hvalid : validateDemoEnv p.values with
    | cons problem problems =>
      rw [hvalid] at hstep
      cases hstep
      exact ⟨_, rfl, h.goOn id (.same _)⟩
    | nil =>
      rw [hvalid] at hstep
      dsimp only at hstep ⊢
      cases hexpand : expandPreviewTemplate parseJson p.toolInput with
      | error message =>
        rw [hexpand] at hstep
        cases hstep
        exact ⟨_, rfl, h.goOn id (.same _)⟩
      | ok request =>
        rw [hexpand] at hstep
        cases hstep
        exact ⟨_, rfl, (h.goOn id (.deciding hp)).observe (.same _)⟩
  next => cases hstep

theorem hidden_decideAndRun (h : Hidden s s') (hp : SameInput p p') {q : RequestId}
    {decision : HitlDecision} {now : Int}
    (hstep : s.decideAndRun parseJson stringify sha256 id q p decision now = some t) :
    ∃ t', s'.decideAndRun parseJson stringify sha256 id q p' decision now = some t' ∧ Hidden t t' := by
  unfold Demos.decideAndRun at hstep ⊢
  rw [← hp.toolInput, ← hp.envNames]
  dsimp only at hstep ⊢
  cases hlevel : pendingLevel decision.level with
  | some level =>
    rw [hlevel] at hstep
    obtain ⟨system, hsystem, rfl⟩ := Option.map_eq_some_iff.mp hstep
    dsimp only
    rw [← h.system, hsystem]
    exact ⟨_, rfl, (h.goOn id (.same _)).withSystem system⟩
  | none =>
    rw [hlevel] at hstep
    dsimp only at hstep ⊢
    obtain ⟨hanswer, hvault⟩ :=
      startPreviewService_same parseJson h.vault (.ok p.toolInput) q.text now
    revert hstep hanswer hvault
    generalize startPreviewService parseJson s.vault (.ok p.toolInput) q.text now = called
    generalize startPreviewService parseJson s'.vault (.ok p.toolInput) q.text now = called'
    obtain ⟨answer, v⟩ := called
    obtain ⟨answer', v'⟩ := called'
    intro hstep hanswer hvault
    dsimp only at hanswer hvault
    cases hanswer with
    | error message =>
      cases hstep
      exact ⟨_, rfl, (h.withVault hvault).discarded id q.text message⟩
    | ok hrequest =>
      cases hstep
      exact ⟨_, rfl, ((h.withVault hvault).goOn id (.same _)).observe (.request q.uuid hrequest)⟩

theorem hidden_onDecided (h : Hidden s s') {q : RequestId} {decision : HitlDecision} {now : Int}
    (hstep : s.onDecided parseJson stringify sha256 id q decision now = some t) :
    ∃ t', s'.onDecided parseJson stringify sha256 id q decision now = some t' ∧ Hidden t t' := by
  unfold Demos.onDecided at hstep ⊢
  split at hstep
  next p hpc =>
    obtain ⟨p', hpc', hp⟩ := h.deciding hpc
    rw [hpc', ← h.issued]
    dsimp only at hstep ⊢
    split at hstep
    next hfresh =>
      rw [if_pos hfresh]
      have hissue := h.issue q.uuid p.values p'.values
      by_cases hnil : p.values = []
      · rw [if_pos hnil] at hstep
        rw [if_pos ((sameNames_nil hp.2).mp hnil)]
        exact hidden_decideAndRun hissue hp hstep
      · rw [if_neg hnil] at hstep
        rw [if_neg fun hnil' => hnil ((sameNames_nil hp.2).mpr hnil')]
        obtain ⟨hput, hvault⟩ := hissue.vault.put hp.2 q.text now
        revert hstep hput hvault
        generalize (s.issue q.uuid p.values).vault.put q.text p.values now = put
        generalize (s'.issue q.uuid p'.values).vault.put q.text p'.values now = put'
        obtain ⟨full, v⟩ := put
        obtain ⟨full', v'⟩ := put'
        intro hstep hput hvault
        dsimp only at hput hvault
        subst hput
        cases full with
        | false =>
          cases hstep
          exact ⟨_, rfl, (hissue.goOn id (.same _)).withVault hvault⟩
        | true => exact hidden_decideAndRun (hissue.withVault hvault) hp hstep
    next => cases hstep
  next => cases hstep

theorem hidden_onUndecided (h : Hidden s s') {message : JsString}
    (hstep : s.onUndecided id message = some t) :
    ∃ t', s'.onUndecided id message = some t' ∧ Hidden t t' := by
  unfold Demos.onUndecided at hstep ⊢
  split at hstep
  next p hpc =>
    obtain ⟨p', hpc', -⟩ := h.deciding hpc
    rw [hpc']
    cases hstep
    exact ⟨_, rfl, h.goOn id (.same _)⟩
  next => cases hstep

theorem hidden_onAnswered (h : Hidden s s') {reply : Reply} (hstep : s.onAnswered id reply = some t) :
    ∃ t', s'.onAnswered id reply = some t' ∧ Hidden t t' := by
  unfold Demos.onAnswered at hstep ⊢
  split at hstep
  next decision inputsHash hpc =>
    rw [h.other (by rw [hpc]; exact fun _ => PublishPc.noConfusion), hpc]
    dsimp only
    split at hstep
    next hok =>
      rw [if_pos hok]
      cases hstep
      exact ⟨_, rfl, h.goOn id (.same _)⟩
    next hok =>
      rw [if_neg hok]
      cases hstep
      exact ⟨_, rfl, h.discarded id _ _⟩
  next decision inputsHash service hpc =>
    rw [h.other (by rw [hpc]; exact fun _ => PublishPc.noConfusion), hpc]
    dsimp only at hstep ⊢
    have haudited : Hidden
        (if reply.fate.applies then s.observe (.audited (startedCall decision inputsHash)) else s)
        (if reply.fate.applies then s'.observe (.audited (startedCall decision inputsHash)) else s') := by
      split
      · exact h.observe (.same _)
      · exact h
    generalize (if reply.fate.applies then s.observe (.audited (startedCall decision inputsHash)) else s)
      = u at hstep haudited
    generalize (if reply.fate.applies then s'.observe (.audited (startedCall decision inputsHash)) else s')
      = u' at haudited ⊢
    split at hstep
    next hok =>
      rw [if_pos hok]
      cases hstep
      refine ⟨_, rfl, Hidden.goOn ?_ id (.same _)⟩
      split
      · exact haudited.observe (.same _)
      · exact haudited
    next hok =>
      rw [if_neg hok]
      cases hstep
      exact ⟨_, rfl, haudited.discarded id _ _⟩
  next => cases hstep

theorem hidden_onSettle (h : Hidden s s') (hstep : s.onSettle id = some t) :
    ∃ t', s'.onSettle id = some t' ∧ Hidden t t' := by
  unfold Demos.onSettle at hstep ⊢
  rw [← h.system, ← h.error]
  split at hstep
  next requestId result hpc hdone =>
    rw [h.other (by rw [hpc]; exact fun _ => PublishPc.noConfusion), hpc, hdone]
    cases hstep
    exact ⟨_, rfl, h.goOn id (.same _)⟩
  next requestId error hpc hdone =>
    rw [h.other (by rw [hpc]; exact fun _ => PublishPc.noConfusion), hpc, hdone]
    cases hstep
    exact ⟨_, rfl, h.discarded id _ _⟩
  next requestId hpc hdone =>
    rw [h.other (by rw [hpc]; exact fun _ => PublishPc.noConfusion), hpc, hdone]
    cases hstep
    exact ⟨_, rfl, h.discarded id _ _⟩
  next => cases hstep

theorem Hidden.heard (h : Hidden s s') (id : CallId) (reply : Reply) :
    s.heard id reply = s'.heard id reply := by
  unfold Demos.heard
  rw [h.system, h.thrown]

theorem Hidden.executed (h : Hidden s s') (parseJson : JsString → Option JsonValue)
    (readPayload : Option JsString → Except JsString PreviewServiceToolInput) (id : CallId) (reply : Reply) :
    Hidden (s.executed parseJson readPayload id reply) (s'.executed parseJson readPayload id reply) := by
  have hthrown : ∀ {u u' : Demos} (message : Option JsString), Hidden u u' →
      Hidden { u with thrown := Function.update s.thrown id message }
        { u' with thrown := Function.update s'.thrown id message } := fun message hu =>
    { hu with thrown := by rw [h.thrown] }
  unfold Demos.executed
  rw [show s'.system.pc id = s.system.pc id from congrArg (System.pc · id) h.system.symm]
  split
  next q approver row hpc =>
    split
    next hcalled =>
      obtain ⟨hanswer, hvault⟩ := startPreviewService_same parseJson h.vault
        (readPayload row.payload) q.text reply.now
      generalize startPreviewService parseJson s.vault (readPayload row.payload) q.text reply.now = called
        at hanswer hvault ⊢
      generalize startPreviewService parseJson s'.vault (readPayload row.payload) q.text reply.now = called'
        at hanswer hvault ⊢
      obtain ⟨answer, v⟩ := called
      obtain ⟨answer', v'⟩ := called'
      dsimp only at hanswer hvault
      cases hanswer with
      | error message => exact hthrown (some message) (h.withVault hvault)
      | ok hrequest => exact (hthrown none (h.withVault hvault)).observe (.request q.uuid hrequest)
    next => exact hthrown none h
  next => exact h

theorem hidden_onGo (h : Hidden s s') {reply : Reply}
    (hstep : s.onGo parseJson readPayload id reply = some t) :
    ∃ t', s'.onGo parseJson readPayload id reply = some t' ∧ Hidden t t' := by
  obtain ⟨system, hsystem, rfl⟩ := Option.map_eq_some_iff.mp hstep
  have hexecuted := h.executed parseJson readPayload id (s.heard id reply)
  refine ⟨_, Option.map_eq_some_iff.mpr ⟨system, ?_, rfl⟩, ?_⟩
  · rw [← h.heard, ← h.system]
    exact hsystem
  · rw [← h.heard]
    refine { hexecuted.withSystem system with error := ?_ }
    show Function.update s.error id _ = Function.update s'.error id _
    rw [h.error, h.system]

theorem hidden_onBegin (h : Hidden s s') {op : Op} (hstep : s.onBegin id op = some t) :
    ∃ t', s'.onBegin id op = some t' ∧ Hidden t t' := by
  have hbegin : ∀ system, Hitl.step s.system (.begin id op) = some system →
      Hitl.step s'.system (.begin id op) = some system := fun system hsystem => by
    rw [← h.system]
    exact hsystem
  unfold Demos.onBegin at hstep ⊢
  split at hstep
  next hpc =>
    rw [h.other (by rw [hpc]; exact fun _ => PublishPc.noConfusion), hpc]
    cases op with
    | createPendingApproval input =>
      dsimp only at hstep ⊢
      split at hstep
      next => cases hstep
      next hfresh =>
        rw [if_neg (by rw [← h.issued]; exact hfresh)]
        obtain ⟨system, hsystem, rfl⟩ := Option.map_eq_some_iff.mp hstep
        refine ⟨_, Option.map_eq_some_iff.mpr ⟨system, hbegin system hsystem, rfl⟩, ?_⟩
        exact { h with system := rfl, issued := congrArg (input.requestId.uuid :: ·) h.issued }
    | _ =>
      obtain ⟨system, hsystem, rfl⟩ := Option.map_eq_some_iff.mp hstep
      exact ⟨_, Option.map_eq_some_iff.mpr ⟨system, hbegin system hsystem, rfl⟩, h.withSystem system⟩
  next => cases hstep

/-- a label that differs in values only keeps two states so -/
theorem hidden_step (h : Hidden s s') {a a' : Action} (ha : SameAction a a')
    (hstep : s.step parseJson stringify readPayload sha256 a = some t) :
    ∃ t', s'.step parseJson stringify readPayload sha256 a' = some t' ∧ Hidden t t' := by
  cases ha with
  | @publish id rest env env' hnames hok hok' =>
    have hinput : SameInput ⟨rest, some env⟩ ⟨rest, some env'⟩ := ⟨rfl, hnames⟩
    exact hidden_onPublish h hinput (hok.trans hok'.symm) hstep
  | same =>
    cases a with
    | publish id p => exact hidden_onPublish h ⟨rfl, rfl⟩ rfl hstep
    | decided id q decision now => exact hidden_onDecided h hstep
    | undecided id message => exact hidden_onUndecided h hstep
    | answered id reply => exact hidden_onAnswered h hstep
    | settle id => exact hidden_onSettle h hstep
    | call label =>
      cases label with
      | die id => cases hstep
      | begin id op => exact hidden_onBegin h hstep
      | go id reply => exact hidden_onGo h hstep

end

theorem hidden_init : Hidden Demos.init Demos.init :=
  ⟨rfl, .nil, fun _ => .same _, rfl, rfl, rfl, .nil⟩

end ExecutorClient.OwnerPublish
