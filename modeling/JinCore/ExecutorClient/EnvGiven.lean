import JinCore.ExecutorClient.OwnerPublish
import JinCore.ExecutorClient.Rows

/-!
# What was given to `publish`

* `Rows`             every row, and every copy of one that a call holds, meets a predicate; `rows_hitl`;
* `NamesRead`, `PublishInput.Read`, `RowRead`   what is read back of the names;
* `Given`            what the vault holds, and what was requested, is what was given;
* `takeEnv_cases`, `startPreviewService_called`   what the executor can do; `Called.env`;
* `given_step`, `given_init`.
-/

namespace ExecutorClient.OwnerPublish
open JsString Common Hitl Audit Runs PendingApprovals

/-! ## what the rows say -/

/-- the row that an approval holds before its executor is called -/
def held : ApprovePc → Option PendingApprovalRow
  | .audit row | .execute row => some row
  | _ => none

/-- every row, and every copy of one that a call holds, meets a predicate -/
structure Rows (Q : PendingApprovalRow → Prop) (s : System) : Prop where
  table : ∀ r row, s.pending.getPending r = some row → Q row
  creating : ∀ x input pc, s.pc x = .create input pc → Q (newRow input 0)
  carried : ∀ x q approver pc row, s.pc x = .approve q approver pc → held pc = some row →
    row.requestId = q.uuid ∧ Q row

section
variable {Q : PendingApprovalRow → Prop} {s t : System} {l : Label}

theorem Rows.mono {Q' : PendingApprovalRow → Prop} (h : Rows Q s) (hQ : ∀ row, Q row → Q' row) :
    Rows Q' s :=
  ⟨fun r row hrow => hQ row (h.table r row hrow), fun x input pc hx => hQ _ (h.creating x input pc hx),
    fun x q approver pc row hx hheld =>
      (h.carried x q approver pc row hx hheld).imp_right fun hrow => hQ row hrow⟩

variable (hQ : ∀ row row' : PendingApprovalRow, row'.requestId = row.requestId →
  row'.payload = row.payload → Q row → Q row')
include hQ

theorem rows_table (h : Rows Q s) (hstep : Hitl.step s l = some t) {r : JsString}
    {row : PendingApprovalRow} (hrow : t.pending.getPending r = some row) : Q row := by
  have hmap : ∀ f : PendingApprovalRow → PendingApprovalRow, (∀ x, (f x).requestId = x.requestId) →
      (∀ x, (f x).payload = x.payload) → (s.pending.getPending r).map f = some row → Q row := by
    intro f hid hpayload hf
    obtain ⟨x, hx, rfl⟩ := Option.map_eq_some_iff.mp hf
    exact hQ x _ (hid x) (hpayload x) (h.table r x hx)
  rcases rows_step hstep r with ⟨hused, -⟩ | ⟨id, reply, input, rfl, hpc, hinsert⟩
  · obtain ⟨events, hspec⟩ := step_spec hstep
    cases hspec.row r with
    | quiet hg => exact h.table r row (hg ▸ hrow)
    | leave st hst hg => exact h.table r row (hg ▸ hrow)
    | start hg => exact h.table r row (hg ▸ hrow)
    | succeed hg => exact h.table r row (hg ▸ hrow)
    | fail hg => exact h.table r row (hg ▸ hrow)
    | interrupt hg => exact h.table r row (hg ▸ hrow)
    | born input now hr hu hu' =>
      rw [hused] at hu'
      exact absurd hu' hu
    | first now approver x hg hf hg' =>
      rw [hrow, Option.some.injEq] at hg'
      rw [hg']
      exact hQ x _ rfl rfl (h.table r x hg)
    | claim now x hg hx hg' =>
      rw [hrow, Option.some.injEq] at hg'
      rw [hg']
      exact hQ x _ rfl rfl (h.table r x hg)
    | escalate now hg => exact hmap (setEscalated now) (fun _ => rfl) (fun _ => rfl) (hg.symm.trans hrow)
    | release error hg => exact hmap (setReleased error) (fun _ => rfl) (fun _ => rfl) (hg.symm.trans hrow)
    | retire st hst hg =>
      rw [hrow] at hg
      cases hg
    | evict now x hg hx hg' =>
      rw [hrow] at hg'
      cases hg'
  · rw [(insert_cases hinsert).2.2] at hrow
    split at hrow
    next =>
      cases hrow
      exact hQ (newRow input 0) _ rfl rfl (h.creating id input _ hpc)
    next => exact h.table r row hrow

theorem rows_carried (h : Rows Q s) (hstep : Hitl.step s l = some t) {x : CallId} {q : RequestId}
    {approver : JsString} {pc : ApprovePc} {row : PendingApprovalRow} (hx : t.pc x = .approve q approver pc)
    (hheld : held pc = some row) : row.requestId = q.uuid ∧ Q row := by
  by_cases hl : x = l.id
  · subst hl
    cases step_moved hstep with
    | begun id op hs ht =>
      rw [ht] at hx
      have hop : Pc.start op = .approve q approver pc := (if_pos rfl).symm.trans hx
      cases op with
      | resolveAndExecute q' approver' =>
        cases hop
        cases hheld
      | createPendingApproval => cases hop
      | resolveRejection => cases hop
      | sweep => cases hop
    | stopped id ht =>
      rw [ht, show (Label.die id).id = id from rfl, stop_pc] at hx
      cases hx
    | create id reply input pc' m hs hm ht =>
      rw [ht] at hx
      obtain ⟨_, _, hpc⟩ := goto_of_toPc ((apply_pc ..).symm.trans hx) fun _ => Pc.noConfusion
      cases hpc
    | reject id reply q' approver' pc' hs ht =>
      rw [ht] at hx
      obtain ⟨_, _, hpc⟩ := goto_of_toPc ((apply_pc ..).symm.trans hx) fun _ => Pc.noConfusion
      cases hpc
    | sweep id reply now pc' hs ht =>
      rw [ht] at hx
      obtain ⟨_, _, hpc⟩ := goto_of_toPc ((apply_pc ..).symm.trans hx) fun _ => Pc.noConfusion
      cases hpc
    | approve id reply q' approver' pc' hs ht =>
      rw [ht] at hx
      obtain ⟨pc'', hnext, hpc⟩ := goto_of_toPc ((apply_pc ..).symm.trans hx) fun _ => Pc.noConfusion
      cases hpc
      have hmove := approve_move s.pending id q approver reply pc'
      rw [hnext] at hmove
      generalize (approve s.pending id q approver reply pc').pending = p' at hmove
      generalize (approve s.pending id q approver reply pc').events = events at hmove
      cases hmove with
      | claimed now x hp hfree =>
        cases hheld
        have hid : x.requestId = q.uuid := requestId_of_getPending hp
        exact ⟨hid, hQ x _ rfl rfl (h.table _ x hp)⟩
      | audited x =>
        cases hheld
        exact h.carried id q approver _ _ hs rfl
      | _ => cases hheld
  · obtain ⟨events, hspec⟩ := step_spec hstep
    rw [hspec.others x hl] at hx
    exact h.carried x q approver pc row hx hheld

/-- what holds of the row of every creation holds of every row -/
theorem rows_hitl (h : Rows Q s) (hstep : Hitl.step s l = some t)
    (hbegin : ∀ x input, l = .begin x (.createPendingApproval input) → Q (newRow input 0)) : Rows Q t where
  table _ _ hrow := rows_table hQ h hstep hrow
  creating x input pc hx := by
    rcases insert_of_step hstep hx with ⟨pc', hs, -⟩ | hl
    · exact h.creating x input pc' hs
    · exact hbegin x input hl
  carried _ _ _ _ _ hx hheld := rows_carried hQ h hstep hx hheld

end

/-! ## what was given -/

section
variable (stringify : PreviewServiceToolInput → JsString)
  (readPayload : Option JsString → Except JsString PreviewServiceToolInput)

/-- the payload is read back with the names -/
def NamesRead (env : Env) (payload : Option JsString) : Prop :=
  ∃ input, readPayload payload = .ok input ∧ input.envNames = some (env.map Prod.fst)

/-- a JSON column gives back the names of the input that was written -/
def PublishInput.Read (p : PublishInput) : Prop :=
  p.values ≠ [] → NamesRead readPayload p.values (some (stringify p.toolInput))

/-- the row of a publication has its names -/
def RowRead (s : Demos) (row : PendingApprovalRow) : Prop :=
  row.requestId ∈ s.issued ∧
    ∀ env, (row.requestId, env) ∈ s.published → env ≠ [] → NamesRead readPayload env row.payload

/-- what is held in the vault, and what was requested, was given -/
structure Given (s : Demos) : Prop where
  published : ∀ r env, (r, env) ∈ s.published → r ∈ s.issued ∧ uuidColumn r = some r
  single : (s.published.map Prod.fst).Nodup
  vault : ∀ r entry, s.vault.get r = some entry → (r, entry.env) ∈ s.published ∧ entry.env ≠ []
  deciding : ∀ id p, s.publishing id = .deciding p → PublishInput.Read stringify readPayload p
  rows : Rows (RowRead readPayload s) s.system
  observed : ∀ r request, .startPreviewService r request ∈ s.observed →
    request.env = s.given r ∧ r ∈ s.issued

variable {stringify readPayload}
variable {s t : Demos} {id : CallId}

theorem given_eq (h : (s.published.map Prod.fst).Nodup) {r : JsString} {env : Env}
    (hmem : (r, env) ∈ s.published) : s.given r = if env = [] then none else some env := by
  have hfind := Table.find?_key h hmem
  unfold Demos.given
  rw [hfind]
  by_cases hnil : env = []
  · rw [if_pos hnil, hnil]
    rfl
  · rw [if_neg hnil, Option.map_some, Option.filter_some_pos (by simpa using hnil)]

theorem given_none {r : JsString} (h : ∀ env, (r, env) ∈ s.published → env = []) : s.given r = none := by
  unfold Demos.given
  cases hfind : s.published.find? fun p => p.1 = r with
  | none => rfl
  | some p =>
    have hkey : p.1 = r := by simpa using List.find?_some hfind
    have hmem : (r, p.2) ∈ s.published := by
      rw [← hkey]
      exact List.mem_of_find?_eq_some hfind
    rw [Option.map_some, h _ hmem]
    rfl

theorem given_issue {r r' : JsString} (env : Env) (hne : r' ≠ r) : (s.issue r env).given r' = s.given r' := by
  unfold Demos.given Demos.issue
  dsimp only
  rw [List.find?_cons_of_neg (by simpa using Ne.symm hne)]

theorem Given.goOn (h : Given stringify readPayload s) (id : CallId) {pc : PublishPc}
    (hpc : ∀ p, pc = .deciding p → PublishInput.Read stringify readPayload p) :
    Given stringify readPayload (s.goOn id pc) := by
  refine { h with deciding := fun i p hp => ?_ }
  have hp : Function.update s.publishing id pc i = .deciding p := hp
  by_cases hi : i = id
  · rw [hi, Function.update_self] at hp
    exact hpc p hp
  · rw [Function.update_of_ne hi] at hp
    exact h.deciding i p hp

theorem Given.observe (h : Given stringify readPayload s) {event : Observed}
    (he : ∀ r request, event = .startPreviewService r request → request.env = s.given r ∧ r ∈ s.issued) :
    Given stringify readPayload (s.observe event) := by
  refine { h with observed := fun r request hmem => ?_ }
  rcases List.mem_cons.mp hmem with hnew | hold
  · exact he r request hnew.symm
  · exact h.observed r request hold

theorem Given.withVault (h : Given stringify readPayload s) {v : EnvVault}
    (hv : ∀ r entry, v.get r = some entry → (r, entry.env) ∈ s.published ∧ entry.env ≠ []) :
    Given stringify readPayload { s with vault := v } := { h with vault := hv }

theorem Given.discarded (h : Given stringify readPayload s) (id : CallId) (requestId message : JsString) :
    Given stringify readPayload (s.discarded id requestId message) := by
  refine (h.goOn id fun _ => PublishPc.noConfusion).withVault fun r entry hr => ?_
  rw [EnvVault.get_discard] at hr
  split at hr
  · cases hr
  · exact h.vault r entry hr

/-- a fresh id: no row, no entry and no request has it yet -/
theorem Given.issue (h : Given stringify readPayload s) {r : JsString} (hfresh : r ∉ s.issued)
    (hcast : uuidColumn r = some r) (env : Env) : Given stringify readPayload (s.issue r env) where
  published r' env' hmem := by
    rcases List.mem_cons.mp hmem with hnew | hold
    · cases hnew
      exact ⟨List.mem_cons_self, hcast⟩
    · exact (h.published r' env' hold).imp_left (List.mem_cons_of_mem _)
  single := by
    refine List.nodup_cons.mpr ⟨fun hmem => ?_, h.single⟩
    obtain ⟨p, hp, hkey⟩ := List.mem_map.mp hmem
    have hkey : p.1 = r := hkey
    exact hfresh (hkey ▸ (h.published p.1 p.2 hp).1)
  vault r' entry hr := (h.vault r' entry hr).imp_left (List.mem_cons_of_mem _)
  deciding := h.deciding
  rows := by
    refine h.rows.mono fun row hrow => ⟨List.mem_cons_of_mem _ hrow.1, fun env' hmem => ?_⟩
    rcases List.mem_cons.mp hmem with hnew | hold
    · have hr : row.requestId = r := (Prod.mk.inj hnew).1
      exact absurd (hr ▸ hrow.1) hfresh
    · exact hrow.2 env' hold
  observed r' request hmem := by
    obtain ⟨henv, hissued⟩ := h.observed r' request hmem
    have hne : r' ≠ r := fun heq => hfresh (heq ▸ hissued)
    rw [given_issue env hne]
    exact ⟨henv, List.mem_cons_of_mem _ hissued⟩

end

/-! ## what the executor can do -/

theorem takeEnv_cases (v : EnvVault) (names : List JsString) (r : JsString) (now : Int) :
    (∃ message, takeEnv v names r now = (.error message, v.discard r)) ∨
      ∃ entry, v.get r = some entry ∧ takeEnv v names r now = (.ok entry.env, v.discard r) := by
  have hfound : ∀ env, (v.take r now).1 = some env → ∃ entry, v.get r = some entry ∧ entry.env = env :=
    fun _ => EnvVault.get_of_take
  unfold takeEnv
  rw [← EnvVault.take_snd v r now]
  revert hfound
  generalize v.take r now = taken
  obtain ⟨found, w⟩ := taken
  intro hfound
  cases found with
  | none => exact Or.inl ⟨_, rfl⟩
  | some env =>
    obtain ⟨entry, hentry, henv⟩ := hfound env rfl
    by_cases hnames : joined (env.map Prod.fst) = joined names
    · refine Or.inr ⟨entry, hentry, ?_⟩
      dsimp only
      rw [if_pos hnames, henv]
    · refine Or.inl ⟨envMismatch, ?_⟩
      dsimp only
      rw [if_neg hnames]

/-- the executor throws, sends no values where there are no names, or sends those of the vault -/
inductive Called (v : EnvVault) (payload : Except JsString PreviewServiceToolInput) (r : JsString) :
    Except JsString StartPreviewServiceInput × EnvVault → Prop
  | threw (message : JsString) (v' : EnvVault) (hv : v' = v ∨ v' = v.discard r) :
      Called v payload r (.error message, v')
  | plain (input : PreviewServiceToolInput) (request : StartPreviewServiceInput)
      (hpayload : payload = .ok input) (hnames : input.envNames.getD [] = []) (henv : request.env = none) :
      Called v payload r (.ok request, v)
  | sent (entry : VaultEntry) (request : StartPreviewServiceInput) (hentry : v.get r = some entry)
      (henv : request.env = some entry.env) : Called v payload r (.ok request, v.discard r)

theorem startPreviewService_called (parseJson : JsString → Option JsonValue) (v : EnvVault)
    (payload : Except JsString PreviewServiceToolInput) (r : JsString) (now : Int) :
    Called v payload r (startPreviewService parseJson v payload r now) := by
  unfold startPreviewService
  cases payload with
  | error message => exact .threw message v (Or.inl rfl)
  | ok payload =>
    dsimp only
    cases hexpand : expandPreviewTemplate parseJson payload with
    | error message => exact .threw message v (Or.inl rfl)
    | ok input =>
      dsimp only
      cases hnames : payload.envNames.getD [] with
      | nil => exact .plain payload _ rfl hnames (env_of_expandPreviewTemplate hexpand).1
      | cons name names =>
        dsimp only
        obtain ⟨message, htaken⟩ | ⟨entry, hentry, htaken⟩ := takeEnv_cases v (name :: names) r now
        · rw [htaken]
          exact .threw message _ (Or.inr rfl)
        · rw [htaken]
          exact .sent entry _ hentry rfl

section
variable {stringify : PreviewServiceToolInput → JsString}
  {readPayload : Option JsString → Except JsString PreviewServiceToolInput}
variable {s t : Demos} {id : CallId}

/-- what is left in the vault was there before -/
theorem Called.vault {v : EnvVault} {payload : Except JsString PreviewServiceToolInput} {r : JsString}
    {called : Except JsString StartPreviewServiceInput × EnvVault} (h : Called v payload r called)
    {r' : JsString} {entry : VaultEntry} (hentry : called.2.get r' = some entry) :
    v.get r' = some entry := by
  have hdiscard : (v.discard r).get r' = some entry → v.get r' = some entry := by
    rw [EnvVault.get_discard]
    split
    · intro h
      cases h
    · exact id
  cases h with
  | threw message v' hv =>
    rcases hv with rfl | rfl
    · exact hentry
    · exact hdiscard hentry
  | plain => exact hentry
  | sent => exact hdiscard hentry

/-- a request has the values that were given for its id -/
theorem Called.env (h : Given stringify readPayload s) {payload : Except JsString PreviewServiceToolInput}
    {q : RequestId} {request : StartPreviewServiceInput} {v : EnvVault}
    (hcalled : Called s.vault payload q.text (.ok request, v))
    (hread : ∀ env, (q.uuid, env) ∈ s.published → env ≠ [] →
      ∃ input, payload = .ok input ∧ input.envNames = some (env.map Prod.fst)) :
    request.env = s.given q.uuid := by
  cases hcalled with
  | plain input _ hpayload hnames henv =>
    rw [henv, given_none]
    intro env hmem
    by_contra hne
    obtain ⟨input', hpayload', hnames'⟩ := hread env hmem hne
    rw [hpayload, Except.ok.injEq] at hpayload'
    rw [hpayload', hnames', Option.getD_some, List.map_eq_nil_iff] at hnames
    exact hne hnames
  | sent entry _ hentry henv =>
    obtain ⟨hmem, hne⟩ := h.vault q.text entry hentry
    have hcast := (h.published q.text entry.env hmem).2
    rw [q.cast, Option.some.injEq] at hcast
    rw [hcast, given_eq h.single hmem, if_neg hne, henv]

theorem given_onPublish (h : Given stringify readPayload s) {parseJson : JsString → Option JsonValue}
    {p : PublishInput} (hread : PublishInput.Read stringify readPayload p)
    (hstep : s.onPublish parseJson id p = some t) : Given stringify readPayload t := by
  unfold Demos.onPublish at hstep
  split at hstep
  next =>
    split at hstep
    next =>
      cases hstep
      exact h.goOn id fun _ => PublishPc.noConfusion
    next =>
      split at hstep
      next =>
        cases hstep
        exact h.goOn id fun _ => PublishPc.noConfusion
      next =>
        cases hstep
        refine (h.goOn id fun p' hp => ?_).observe fun _ _ => Observed.noConfusion
        cases hp
        exact hread
  next => cases hstep

theorem rowRead_congr (row row' : PendingApprovalRow) (hid : row'.requestId = row.requestId)
    (hpayload : row'.payload = row.payload) (h : RowRead readPayload s row) : RowRead readPayload s row' := by
  unfold RowRead
  rw [hid, hpayload]
  exact h

theorem Given.unique (h : Given stringify readPayload s) {r : JsString} {env env' : Env}
    (hmem : (r, env) ∈ s.published) (hmem' : (r, env') ∈ s.published) : env = env' :=
  (Prod.mk.inj (List.inj_on_of_nodup_map h.single hmem hmem' rfl)).2

theorem Given.withSystem (h : Given stringify readPayload s) {system : System}
    (hrows : Rows (RowRead readPayload s) system) :
    Given stringify readPayload { s with system := system } := { h with rows := hrows }

/-- another id is taken -/
theorem Given.grow (h : Given stringify readPayload s) (r : JsString) :
    Given stringify readPayload { s with issued := r :: s.issued } where
  published r' env hmem := (h.published r' env hmem).imp_left (List.mem_cons_of_mem _)
  single := h.single
  vault := h.vault
  deciding := h.deciding
  rows := h.rows.mono fun _ hrow => hrow.imp_left (List.mem_cons_of_mem _)
  observed r' request hmem := (h.observed r' request hmem).imp_right (List.mem_cons_of_mem _)

theorem Given.put (h : Given stringify readPayload s) {r : JsString} {env : Env}
    (hmem : (r, env) ∈ s.published) (hne : env ≠ []) (now : Int) :
    Given stringify readPayload { s with vault := (s.vault.put r env now).2 } := by
  refine h.withVault fun r' entry hr => ?_
  have hpurge : (s.vault.purge now).get r' = some entry → s.vault.get r' = some entry := by
    rw [EnvVault.get_purge]
    exact fun hfilter => (Option.filter_eq_some_iff.mp hfilter).1
  cases hput : (s.vault.put r env now).1 with
  | false =>
    rw [EnvVault.put_throws hput] at hr
    exact h.vault r' entry (hpurge hr)
  | true =>
    rw [EnvVault.get_put hput] at hr
    split at hr
    next heq =>
      cases hr
      rw [heq]
      exact ⟨hmem, hne⟩
    next => exact h.vault r' entry (hpurge hr)

/-- the calls on approvals leave to the rows what they say -/
theorem Given.rows_step (h : Given stringify readPayload s) {l : Label} {system : System}
    (hstep : Hitl.step s.system l = some system)
    (hbegin : ∀ x input, l = .begin x (.createPendingApproval input) →
      RowRead readPayload s (newRow input 0)) : Rows (RowRead readPayload s) system :=
  rows_hitl rowRead_congr h.rows hstep hbegin

variable {parseJson : JsString → Option JsonValue} {sha256 : JsString → JsString}

theorem given_decideAndRun (h : Given stringify readPayload s) {q : RequestId} {p : PublishInput}
    {decision : HitlDecision} {now : Int} (hread : PublishInput.Read stringify readPayload p)
    (hmem : (q.uuid, p.values) ∈ s.published)
    (hstep : s.decideAndRun parseJson stringify sha256 id q p decision now = some t) :
    Given stringify readPayload t := by
  have hissued : q.uuid ∈ s.issued := (h.published _ _ hmem).1
  unfold Demos.decideAndRun at hstep
  dsimp only at hstep
  cases hlevel : pendingLevel decision.level with
  | some level =>
    rw [hlevel] at hstep
    obtain ⟨system, hsystem, rfl⟩ := Option.map_eq_some_iff.mp hstep
    refine (h.goOn id fun _ => PublishPc.noConfusion).withSystem (h.rows_step hsystem ?_)
    intro x input hbegin
    cases hbegin
    refine ⟨hissued, fun env henv hne => ?_⟩
    rw [h.unique henv hmem] at hne ⊢
    exact hread hne
  | none =>
    rw [hlevel] at hstep
    dsimp only at hstep
    have hcalled := startPreviewService_called parseJson s.vault (.ok p.toolInput) q.text now
    generalize startPreviewService parseJson s.vault (.ok p.toolInput) q.text now = called
      at hstep hcalled
    obtain ⟨answer, v⟩ := called
    have hvault := h.withVault fun r entry hr => h.vault r entry (hcalled.vault hr)
    cases answer with
    | error message =>
      cases hstep
      exact hvault.discarded id q.text message
    | ok request =>
      cases hstep
      refine (hvault.goOn id fun _ => PublishPc.noConfusion).observe fun r request' hr => ?_
      cases hr
      refine ⟨Called.env h hcalled fun env henv hne => ⟨_, rfl, ?_⟩, hissued⟩
      rw [h.unique henv hmem] at hne ⊢
      exact if_neg fun hnil => hne (List.map_eq_nil_iff.mp hnil)

theorem given_onDecided (h : Given stringify readPayload s) {q : RequestId} {decision : HitlDecision}
    {now : Int} (hstep : s.onDecided parseJson stringify sha256 id q decision now = some t) :
    Given stringify readPayload t := by
  unfold Demos.onDecided at hstep
  split at hstep
  next p hpc =>
    dsimp only at hstep
    split at hstep
    next hfresh =>
      obtain ⟨-, htext, hfresh⟩ := hfresh
      have hread := h.deciding id p hpc
      have hissue := h.issue hfresh (htext ▸ q.cast) p.values
      have hmem : (q.uuid, p.values) ∈ (s.issue q.uuid p.values).published := List.mem_cons_self
      split at hstep
      next => exact given_decideAndRun hissue hread hmem hstep
      next hne =>
        have hmem' : (q.text, p.values) ∈ (s.issue q.uuid p.values).published := by rw [htext]; exact hmem
        have hput := hissue.put hmem' hne now
        generalize (s.issue q.uuid p.values).vault.put q.text p.values now = put at hstep hput
        obtain ⟨full, v⟩ := put
        cases full with
        | false =>
          cases hstep
          exact hput.goOn id fun _ => PublishPc.noConfusion
        | true => exact given_decideAndRun hput hread hmem hstep
    next => cases hstep
  next => cases hstep

theorem given_onUndecided (h : Given stringify readPayload s) {message : JsString}
    (hstep : s.onUndecided id message = some t) : Given stringify readPayload t := by
  unfold Demos.onUndecided at hstep
  split at hstep
  next =>
    cases hstep
    exact h.goOn id fun _ => PublishPc.noConfusion
  next => cases hstep

theorem given_onAnswered (h : Given stringify readPayload s) {reply : Reply}
    (hstep : s.onAnswered id reply = some t) : Given stringify readPayload t := by
  unfold Demos.onAnswered at hstep
  split at hstep
  next decision inputsHash hpc =>
    split at hstep
    · cases hstep
      exact h.goOn id fun _ => PublishPc.noConfusion
    · cases hstep
      exact h.discarded id _ _
  next decision inputsHash service hpc =>
    dsimp only at hstep
    have haudited : Given stringify readPayload
        (if reply.fate.applies then s.observe (.audited (startedCall decision inputsHash)) else s) := by
      split
      · exact h.observe fun _ _ => Observed.noConfusion
      · exact h
    generalize (if reply.fate.applies then s.observe (.audited (startedCall decision inputsHash)) else s)
      = u at hstep haudited
    split at hstep
    · cases hstep
      refine Given.goOn ?_ id fun _ => PublishPc.noConfusion
      split
      · exact haudited.observe fun _ _ => Observed.noConfusion
      · exact haudited
    · cases hstep
      exact haudited.discarded id _ _
  next => cases hstep

theorem given_onSettle (h : Given stringify readPayload s) (hstep : s.onSettle id = some t) :
    Given stringify readPayload t := by
  unfold Demos.onSettle at hstep
  split at hstep
  · cases hstep
    exact h.goOn id fun _ => PublishPc.noConfusion
  · cases hstep
    exact h.discarded id _ _
  · cases hstep
    exact h.discarded id _ _
  · cases hstep

theorem given_executed (h : Given stringify readPayload s) (reply : Reply) :
    Given stringify readPayload (s.executed parseJson readPayload id reply) := by
  unfold Demos.executed
  split
  next q approver row hpc =>
    obtain ⟨hid, hissued, hread⟩ := h.rows.carried id q approver _ row hpc rfl
    split
    next =>
      have hcalled := startPreviewService_called parseJson s.vault (readPayload row.payload) q.text reply.now
      generalize startPreviewService parseJson s.vault (readPayload row.payload) q.text reply.now = called
        at hcalled
      obtain ⟨answer, v⟩ := called
      have hvault := h.withVault fun r entry hr => h.vault r entry (hcalled.vault hr)
      cases answer with
      | error message => exact { hvault with }
      | ok request =>
        have hthrown : Given stringify readPayload
            { s with vault := v, thrown := Function.update s.thrown id none } := { hvault with }
        refine hthrown.observe fun r request' hr => ?_
        cases hr
        rw [hid] at hread hissued
        exact ⟨Called.env h hcalled hread, hissued⟩
    next => exact { h with }
  next => exact h

theorem executed_system (parseJson : JsString → Option JsonValue)
    (readPayload : Option JsString → Except JsString PreviewServiceToolInput) (s : Demos) (id : CallId) (reply : Reply) :
    (s.executed parseJson readPayload id reply).system = s.system := by
  unfold Demos.executed
  split
  · split
    · split <;> rfl
    · rfl
  · rfl

theorem given_onGo (h : Given stringify readPayload s) {reply : Reply}
    (hstep : s.onGo parseJson readPayload id reply = some t) : Given stringify readPayload t := by
  obtain ⟨system, hsystem, rfl⟩ := Option.map_eq_some_iff.mp hstep
  have hexecuted : Given stringify readPayload (s.executed parseJson readPayload id (s.heard id reply)) :=
    given_executed h _
  rw [← executed_system parseJson readPayload] at hsystem
  exact { hexecuted.withSystem (hexecuted.rows_step hsystem fun _ _ => Label.noConfusion) with }

theorem given_onBegin (h : Given stringify readPayload s) {op : Op} (hstep : s.onBegin id op = some t) :
    Given stringify readPayload t := by
  unfold Demos.onBegin at hstep
  split at hstep
  next =>
    cases op with
    | createPendingApproval input =>
      dsimp only at hstep
      split at hstep
      next => cases hstep
      next hfresh =>
        obtain ⟨system, hsystem, rfl⟩ := Option.map_eq_some_iff.mp hstep
        have hgrow := h.grow input.requestId.uuid
        refine hgrow.withSystem (hgrow.rows_step hsystem fun x input' hbegin => ?_)
        cases hbegin
        exact ⟨List.mem_cons_self, fun env hmem => absurd (h.published _ env hmem).1 hfresh⟩
    | _ =>
      obtain ⟨system, hsystem, rfl⟩ := Option.map_eq_some_iff.mp hstep
      refine h.withSystem (h.rows_step hsystem fun x input hbegin => ?_)
      cases hbegin
  next => cases hstep

/-- what one label preserves -/
theorem given_step (h : Given stringify readPayload s) {a : Action}
    (hread : ∀ id p, a = .publish id p → PublishInput.Read stringify readPayload p)
    (hstep : s.step parseJson stringify readPayload sha256 a = some t) :
    Given stringify readPayload t := by
  cases a with
  | publish id p => exact given_onPublish h (hread id p rfl) hstep
  | decided id q decision now => exact given_onDecided h hstep
  | undecided id message => exact given_onUndecided h hstep
  | answered id reply => exact given_onAnswered h hstep
  | settle id => exact given_onSettle h hstep
  | call label =>
    cases label with
    | die id => cases hstep
    | begin id op => exact given_onBegin h hstep
    | go id reply => exact given_onGo h hstep

theorem given_init : Given stringify readPayload Demos.init where
  published _ _ hmem := absurd hmem List.not_mem_nil
  single := List.nodup_nil
  vault _ _ hr := absurd hr (by rw [show Demos.init.vault.get _ = none from rfl]; exact nofun)
  deciding _ _ hp := by cases hp
  rows :=
    { table := fun _ _ hrow => nomatch hrow
      creating := fun _ _ _ hx => nomatch hx
      carried := fun _ _ _ _ _ hx => nomatch hx }
  observed _ _ hmem := absurd hmem List.not_mem_nil

end

end ExecutorClient.OwnerPublish
