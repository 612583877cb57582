import JinCore.ExecutorClient.EnvRequest

/-!
# The values of a publication live as long as its approval

* `ValuesKept`       what can be approved has its values, and what is over has none;
* `Orderly`          what is given up has no values any more, and what is given back has them still;
* `Kept`             the invariant of all publications;
* `goes_go`, `kept_goes`, `kept_publishes`, `kept_vault`, `kept_step`;
* `values_kept`, `values_lost`.
-/

namespace ExecutorClient
open JsString Common Hitl Runs Lease PendingApprovals

/-! ## what is claimed -/

/-- the request has been executed, or its row was there and is gone -/
def Over (s : Core) (r : JsString) : Prop :=
  (∃ i, .execSucceeded i r ∈ s.system.history) ∨
    r ∈ s.system.pending.used ∧ s.system.pending.getPending r = none

structure ValuesKept (s : Core) : Prop where
  /-- a row that nobody has claimed can be approved, and its executor is given the values -/
  pending : ∀ p ∈ s.publications, Live s p → ∀ row,
    s.system.pending.getPending p.requestId.uuid = some row → row.executingAt = none →
      (s.vault.take p.requestId.text s.clock).1 = some p.env
  gone : ∀ p ∈ s.publications, Live s p → Over s p.requestId.uuid →
    s.vault.get p.requestId.text = none
  started : ∀ r ∈ s.started, s.vault.get r = none

/-! ## the condition -/

def Pc.threw : Pc → Bool
  | .done (.returned _) => false
  | .done _ => true
  | _ => false

def Orderly (s : Core) : Action → Prop
  | .call (.go id reply) =>
    (∀ r, deletes s.system id reply = some r → s.vault.has r reply.now = false) ∧
      ∀ p ∈ s.publications, releases s.system id reply = some p.requestId.uuid →
        reply.now < p.publishedAt + defaultTtlMs → s.vault.has p.requestId.text reply.now = true
  | .settle id => ∀ r, s.publishing id = some r → Pc.threw (s.system.pc id) = true →
      s.vault.has r s.clock = true → s.system.pending.getPending r = none
  | _ => True

/-! ## all publications -/

section
variable (expand : Option JsString → Option (List JsString))

structure Kept (s : Core) : Prop where
  leased : Leased s.system
  entries : ∀ r e, s.vault.get r = some e → ∃ p ∈ s.publications, p.requestId.uuid = r ∧
    e.env = p.env ∧ e.expiresAt = p.publishedAt + defaultTtlMs
  accepted : ∀ p ∈ s.publications, p.requestId.text = p.requestId.uuid ∧ p.env ≠ [] ∧
    expand (some p.payload) = some (p.env.map Prod.fst) ∧ p.requestId.uuid ∈ s.issued
  single : ∀ p ∈ s.publications, ∀ p' ∈ s.publications, p.requestId.uuid = p'.requestId.uuid → p = p'
  used : ∀ r ∈ s.system.pending.used, r ∈ s.issued
  creating : ∀ x input pc, s.system.pc x = .create input pc → input.requestId.uuid ∈ s.issued ∧
    (pc = .insert → input.requestId.uuid ∉ s.system.pending.used)
  alone : ∀ x y input input' pc pc', s.system.pc x = .create input pc →
    s.system.pc y = .create input' pc' → input.requestId.uuid = input'.requestId.uuid → x = y
  publishing : ∀ x r, s.publishing x = some r → r ∈ s.issued ∧ ∀ y input pc,
    s.system.pc y = .create input pc → input.requestId.uuid = r → y = x
  started : ∀ r ∈ s.started, s.vault.get r = none ∧ r ∈ s.issued
  request : ∀ p ∈ s.publications, RequestKept s p

variable {expand}
variable {s t : Core} {l : Label} {p : Publication}

/-- the entry of a publication -/
theorem Kept.entry (hkept : Kept expand s) (hp : p ∈ s.publications)
    (hvalue : s.vault.get p.requestId.uuid ≠ none) : ∃ e, s.vault.get p.requestId.uuid = some e ∧
      e.env = p.env ∧ e.expiresAt = p.publishedAt + defaultTtlMs := by
  obtain ⟨e, he⟩ := Option.ne_none_iff_exists'.mp hvalue
  obtain ⟨p', hp', hr, henv, hexpires⟩ := hkept.entries _ e he
  rw [hkept.single p' hp' p hp hr] at henv hexpires
  exact ⟨e, he, henv, hexpires⟩

/-- what the vault does not have is not there, as long as the publication is live -/
theorem Kept.none_of_has (hkept : Kept expand s) (hp : p ∈ s.publications) {now : Int}
    (hlive : now < p.publishedAt + defaultTtlMs) (hhas : s.vault.has p.requestId.uuid now = false) :
    s.vault.get p.requestId.uuid = none := by
  by_contra hvalue
  obtain ⟨e, he, -, hexpires⟩ := hkept.entry hp hvalue
  rw [EnvVault.has_of_get he (hexpires ▸ hlive)] at hhas
  cases hhas

theorem kept_goes (hkept : Kept expand s) (hstep : Hitl.step s.system l = some t.system)
    (hvault : ∀ r, t.vault.get r = s.vault.get r ∨ t.vault.get r = none)
    (hpublications : t.publications = s.publications) (hpublishing : t.publishing = s.publishing)
    (hstarted : t.started = s.started) (hissued : ∀ r ∈ s.issued, r ∈ t.issued)
    (hbegin : ∀ x input, l = .begin x (.createPendingApproval input) →
      input.requestId.uuid ∉ s.issued ∧ input.requestId.uuid ∈ t.issued)
    (hgoes : ∀ p ∈ s.publications, Goes s t l p) : Kept expand t := by
  have hleased := leased_step s.system l t.system hkept.leased hstep
  have hfresh : ∀ x input, s.system.pc x = .create input .insert →
      input.requestId.uuid ∉ s.system.pending.used := fun x input hx => (hkept.creating x input _ hx).2 rfl
  refine ⟨hleased, fun r e hr => ?_, fun p hp => ?_, ?_, fun r hr => ?_, fun x input pc hx => ?_,
    fun x y input input' pc pc' hx hy hsame => ?_, fun x r hx => ?_, fun r hr => ?_, fun p hp => ?_⟩
  · rcases hvault r with h | h
    · rw [hpublications]
      exact hkept.entries r e (h.symm.trans hr)
    · rw [hr] at h
      cases h
  · rw [hpublications] at hp
    obtain ⟨htext, henv, hexpand, hp⟩ := hkept.accepted p hp
    exact ⟨htext, henv, hexpand, hissued _ hp⟩
  · rw [hpublications]
    exact hkept.single
  · rcases rows_step hstep r with ⟨hsame, -⟩ | ⟨id, reply, input, rfl, hpc, hinsert⟩
    · rw [hsame] at hr
      exact hissued r (hkept.used r hr)
    · rw [(insert_cases hinsert).2.1] at hr
      rcases List.mem_cons.mp hr with rfl | hr
      · exact hissued _ (hkept.creating id input _ hpc).1
      · exact hissued r (hkept.used r hr)
  · rcases insert_of_step hstep hx with ⟨pc', hs, hpc'⟩ | rfl
    · refine ⟨hissued _ (hkept.creating x input pc' hs).1, fun hins hused => ?_⟩
      obtain ⟨rfl, hxl⟩ := hpc' hins
      rcases rows_step hstep input.requestId.uuid with ⟨hsame, -⟩ | ⟨id, reply, input', rfl, hpc, hinsert⟩
      · rw [hsame] at hused
        exact hfresh x input hs hused
      · rw [(insert_cases hinsert).2.1] at hused
        rcases List.mem_cons.mp hused with h | hused
        · exact hxl (hkept.alone x id input input' _ _ hs hpc h)
        · exact hfresh x input hs hused
    · obtain ⟨hnot, hin⟩ := hbegin x input rfl
      refine ⟨hin, fun _ hused => hnot (hkept.used _ ?_)⟩
      rcases rows_step hstep input.requestId.uuid with ⟨hsame, -⟩ | ⟨id, reply, input', h, -⟩
      · rw [hsame] at hused
        exact hused
      · cases h
  · rcases insert_of_step hstep hx with ⟨old, hs, -⟩ | hl <;>
      rcases insert_of_step hstep hy with ⟨old', hs', -⟩ | hl'
    · exact hkept.alone x y input input' old old' hs hs' hsame
    · exact absurd (hsame ▸ (hkept.creating x input old hs).1) (hbegin y input' hl').1
    · exact absurd (hsame.symm ▸ (hkept.creating y input' old' hs').1) (hbegin x input hl).1
    · rw [hl] at hl'
      cases hl'
      rfl
  · rw [hpublishing] at hx
    obtain ⟨hr, hsole⟩ := hkept.publishing x r hx
    refine ⟨hissued r hr, fun y input pc hy hsame => ?_⟩
    rcases insert_of_step hstep hy with ⟨old, hs, -⟩ | hl
    · exact hsole y input old hs hsame
    · exact absurd (hsame.symm ▸ hr) (hbegin y input hl).1
  · rw [hstarted] at hr
    obtain ⟨hnone, hr⟩ := hkept.started r hr
    refine ⟨?_, hissued r hr⟩
    rcases hvault r with h | h
    · exact h.trans hnone
    · exact h
  · rw [hpublications] at hp
    exact requestKept_goes (hkept.request p hp) hkept.leased hleased hfresh (hgoes p hp)

/-! ### a label of the calls -/

/-- a label that leaves the vault alone, and is no end of an executor -/
theorem goes_begin {id : CallId} {op : Op} (hstep : Hitl.step s.system (.begin id op) = some t.system)
    (hvault : t.vault = s.vault) (hthrown : t.thrown = s.thrown) (hclock : s.clock ≤ t.clock)
    (hfresh : ∀ input, op = .createPendingApproval input → input.requestId.uuid ≠ p.requestId.uuid) :
    Goes s t (.begin id op) p := by
  have hidle : s.system.pc id = .idle := by
    cases step_moved hstep with
    | begun id op hs => exact hs
  refine ⟨hstep, hclock, fun x input h => ?_, fun x _ => congrFun hthrown x, Or.inl (by rw [hvault]),
    fun q approver row h => ?_, fun q approver row row' result h => ?_, fun _ _ h => (nomatch h),
    fun _ _ h => (nomatch h)⟩
  · cases h
    exact hfresh input rfl
  · exact absurd (hidle.symm.trans h) Pc.noConfusion
  · exact absurd (hidle.symm.trans h) Pc.noConfusion

theorem takeEnv_snd (v : EnvVault) (names : List JsString) (requestId : JsString) (now : Int) :
    (takeEnv v names requestId now).2 = v.discard requestId := by
  rw [← EnvVault.take_snd v requestId now, takeEnv]
  split
  next h => rw [h]
  next h => rw [h]

theorem takeEnv_fst {v : EnvVault} {names : List JsString} {requestId : JsString} {now : Int}
    (h : (takeEnv v names requestId now).1 = true) : ∃ entry, v.get requestId = some entry := by
  rw [takeEnv] at h
  split at h
  next => cases h
  next env v' htake =>
    have htaken : (v.take requestId now).1 = some env := by rw [htake]
    obtain ⟨entry, hentry, -⟩ := EnvVault.get_of_take htaken
    exact ⟨entry, hentry⟩

theorem startPreviewService_vault (v : EnvVault) (payload : Option JsString) (requestId : JsString)
    (now : Int) : (startPreviewService expand v payload requestId now).2 = v ∨
      (startPreviewService expand v payload requestId now).2 = v.discard requestId := by
  rw [startPreviewService]
  split
  · exact Or.inl rfl
  · exact Or.inl rfl
  · exact Or.inr (takeEnv_snd v _ requestId now)

/-- an executor that has names and has not thrown has taken values -/
theorem startPreviewService_takes {v : EnvVault} {payload : Option JsString} {requestId : JsString}
    {now : Int} {names : List JsString} (hexpand : expand payload = some names) (hnames : names ≠ [])
    (h : (startPreviewService expand v payload requestId now).1 = false) :
    (∃ entry, v.get requestId = some entry) ∧
      (startPreviewService expand v payload requestId now).2 = v.discard requestId := by
  rw [startPreviewService, hexpand] at h ⊢
  cases names with
  | nil => exact absurd rfl hnames
  | cons name names =>
    have hreturned : (!(takeEnv v (name :: names) requestId now).1) = false := h
    rw [Bool.not_eq_false'] at hreturned
    exact ⟨takeEnv_fst hreturned, takeEnv_snd v _ requestId now⟩

theorem uuid_of_text {q q' : RequestId} (h : q.text = q'.text) :
    q.uuid = q'.uuid := by
  have hcast := q.cast
  rw [h, q'.cast, Option.some.injEq] at hcast
  exact hcast.symm

/-- what the executor takes is the entry of its own request -/
theorem Kept.uuid_of_get (hkept : Kept expand s) {q : RequestId} {entry : VaultEntry}
    (h : s.vault.get q.text = some entry) : q.uuid = q.text := by
  obtain ⟨p, hp, hr, -⟩ := hkept.entries _ _ h
  obtain ⟨htext, -⟩ := hkept.accepted p hp
  have hsame : q.text = p.requestId.text := hr.symm.trans htext.symm
  exact (uuid_of_text hsame).trans hr

theorem goes_go (hkept : Kept expand s) {id : CallId} {reply : Reply} (hclock : s.clock ≤ reply.now)
    (horderly : Orderly s (.call (.go id reply))) (hgo : s.onGo expand id reply = some t)
    (hp : p ∈ s.publications) : Goes s t (.go id reply) p := by
  obtain ⟨htext, henv, hexpand, -⟩ := hkept.accepted p hp
  obtain ⟨system, hstep, hgo⟩ := Option.bind_eq_some_iff.mp hgo
  have hdeletes : deletes s.system id reply = some p.requestId.uuid →
      reply.now < p.publishedAt + defaultTtlMs → s.vault.get p.requestId.uuid = none :=
    fun hdel hlive => hkept.none_of_has hp hlive (horderly.1 _ hdel)
  have hreleases : releases s.system id reply = some p.requestId.uuid →
      reply.now < p.publishedAt + defaultTtlMs → s.vault.get p.requestId.uuid ≠ none := by
    intro hrel hlive hnone
    have hhas := horderly.2 p hp hrel hlive
    rw [htext, EnvVault.has_of_none hnone] at hhas
    cases hhas
  dsimp only at hgo
  split at hgo
  next q approver row hpc =>
    have hnext := step_approve hstep hpc
    split at hgo
    next hif =>
      obtain ⟨hok, htool⟩ := hif
      cases hgo
      rw [show (approve s.system.pending id q approver reply (.execute row)).next = .goto (.executing row)
        from by simp only [approve, if_pos hok]] at hnext
      refine ⟨hstep, hclock, fun _ _ h => (by cases h), fun x hx => Function.update_of_ne hx _ _, ?_,
        fun q' approver' row' hpc' _ hq hpublished hthrown => ?_,
        fun q' approver' row' _ _ h => (by cases hpc.symm.trans h), fun _ _ h => ?_,
        fun _ _ h => ?_⟩
      · rcases startPreviewService_vault s.vault row.payload q.text reply.now with h | h
        · exact Or.inl (by rw [h])
        · rw [h, EnvVault.get_discard]
          split
          next hr =>
            have hq := uuid_of_text (hr.symm.trans htext.symm)
            exact Or.inr ⟨rfl, q, approver, row, hpc, hnext, hq⟩
          next => exact Or.inl rfl
      · cases hpc.symm.trans hpc'
        rw [← hpublished.2] at hexpand
        have hfalse := (Function.update_self id _ s.thrown).symm.trans hthrown
        obtain ⟨⟨entry, hentry⟩, hvault⟩ := startPreviewService_takes hexpand
          (fun hnil => henv (List.map_eq_nil_iff.mp hnil)) hfalse
        rw [hvault, EnvVault.get_discard, if_pos]
        exact hq.symm.trans (hkept.uuid_of_get hentry)
      · cases h
        exact hdeletes
      · cases h
        exact hreleases
    next hif =>
      cases hgo
      refine ⟨hstep, hclock, fun _ _ h => (by cases h), fun x hx => Function.update_of_ne hx _ _,
        Or.inl rfl, fun q' approver' row' hpc' hnext' _ hpublished _ => ?_,
        fun q' approver' row' _ _ h => (by cases hpc.symm.trans h), fun _ _ h => ?_,
        fun _ _ h => ?_⟩
      · -- an executor of another tool, or none
        cases hpc.symm.trans hpc'
        have hok : reply.fate ≠ .ok := fun hok => hif ⟨hok, hpublished.1⟩
        rw [show (approve s.system.pending id q approver reply (.execute row)).next
          = .goto (.failureRelease row reply.text) from by simp only [approve, if_neg hok]] at hnext
        cases hnext.symm.trans hnext'
      · cases h
        exact hdeletes
      · cases h
        exact hreleases
  next q approver row hpc =>
    obtain ⟨hnot, hgo⟩ := Option.ite_none_left_eq_some.mp hgo
    have hnext := step_approve hstep hpc
    cases hgo
    refine ⟨hstep, hclock, fun _ _ h => (by cases h), fun _ _ => rfl, Or.inl rfl,
      fun q' approver' row' hpc' => (by cases hpc.symm.trans hpc'),
      fun q' approver' row' row'' result _ hnext' => ?_, fun _ _ h => ?_, fun _ _ h => ?_⟩
    · rw [← Bool.not_eq_true]
      intro hthrown
      have hok : reply.fate ≠ .ok := fun hok => hnot ⟨hthrown, hok⟩
      rw [show (approve s.system.pending id q approver reply (.executing row)).next
        = .goto (.failureRelease row reply.text) from by simp only [approve, if_neg hok]] at hnext
      cases hnext.symm.trans hnext'
    · cases h
      exact hdeletes
    · cases h
      exact hreleases
  next hexecute hexecuting =>
    cases hgo
    refine ⟨hstep, hclock, fun _ _ h => (by cases h), fun _ _ => rfl, Or.inl rfl,
      fun q' approver' row' hpc' => absurd hpc' (hexecute q' approver' row'),
      fun q' approver' row' _ _ hpc' => absurd hpc' (hexecuting q' approver' row'), fun _ _ h => ?_,
      fun _ _ h => ?_⟩
    · cases h
      exact hdeletes
    · cases h
      exact hreleases

/-- what `onGo` leaves alone -/
theorem onGo_rest {id : CallId} {reply : Reply} (hgo : s.onGo expand id reply = some t) :
    Hitl.step s.system (.go id reply) = some t.system ∧ t.publications = s.publications ∧
      t.publishing = s.publishing ∧ t.started = s.started ∧ t.issued = s.issued ∧
      ∀ r, t.vault.get r = s.vault.get r ∨ t.vault.get r = none := by
  obtain ⟨system, hstep, hgo⟩ := Option.bind_eq_some_iff.mp hgo
  dsimp only at hgo
  split at hgo
  next q approver row hpc =>
    split at hgo
    next =>
      cases hgo
      refine ⟨hstep, rfl, rfl, rfl, rfl, fun r => ?_⟩
      rcases startPreviewService_vault s.vault row.payload q.text reply.now with h | h
      · exact Or.inl (by rw [h])
      · rw [h, EnvVault.get_discard]
        split
        · exact Or.inr rfl
        · exact Or.inl rfl
    next =>
      cases hgo
      exact ⟨hstep, rfl, rfl, rfl, rfl, fun _ => Or.inl rfl⟩
  next =>
    obtain ⟨-, hgo⟩ := Option.ite_none_left_eq_some.mp hgo
    cases hgo
    exact ⟨hstep, rfl, rfl, rfl, rfl, fun _ => Or.inl rfl⟩
  next =>
    cases hgo
    exact ⟨hstep, rfl, rfl, rfl, rfl, fun _ => Or.inl rfl⟩

theorem kept_onCall (hkept : Kept expand s) (horderly : Orderly s (.call l))
    (hcall : s.onCall expand l = some t) : Kept expand t := by
  cases l with
  | die id => cases hcall
  | go id reply =>
    obtain ⟨hclock, hgo⟩ := Option.ite_none_left_eq_some.mp hcall
    obtain ⟨hstep, hpublications, hpublishing, hstarted, hissued, hvault⟩ := onGo_rest hgo
    exact kept_goes hkept hstep hvault hpublications hpublishing hstarted
      (fun r hr => by rw [hissued]; exact hr) (fun _ _ h => (nomatch h)) fun p hp =>
        goes_go hkept (Int.not_lt.mp hclock) horderly hgo hp
  | begin id op =>
    cases op with
    | createPendingApproval input =>
      obtain ⟨hfresh, hbegin⟩ := Option.ite_none_left_eq_some.mp hcall
      obtain ⟨system, hstep, rfl⟩ := Option.map_eq_some_iff.mp hbegin
      refine kept_goes hkept hstep (fun _ => Or.inl rfl) rfl rfl rfl
        (fun r hr => List.mem_cons_of_mem _ hr) (fun x input' h => ?_) fun p hp => ?_
      · cases h
        exact ⟨hfresh, List.mem_cons_self⟩
      · refine goes_begin hstep rfl rfl le_rfl fun input' h => ?_
        cases h
        intro hsame
        obtain ⟨-, -, -, hin⟩ := hkept.accepted p hp
        exact hfresh (hsame.symm ▸ hin)
    | resolveAndExecute q approver =>
      obtain ⟨system, hstep, rfl⟩ := Option.map_eq_some_iff.mp hcall
      exact kept_goes hkept hstep (fun _ => Or.inl rfl) rfl rfl rfl (fun _ hr => hr)
        (fun _ _ h => (nomatch h)) fun p _ =>
          goes_begin hstep rfl rfl le_rfl fun _ h => (nomatch h)
    | resolveRejection q approver =>
      obtain ⟨system, hstep, rfl⟩ := Option.map_eq_some_iff.mp hcall
      exact kept_goes hkept hstep (fun _ => Or.inl rfl) rfl rfl rfl (fun _ hr => hr)
        (fun _ _ h => (nomatch h)) fun p _ =>
          goes_begin hstep rfl rfl le_rfl fun _ h => (nomatch h)
    | sweep now =>
      obtain ⟨hclock, hbegin⟩ := Option.ite_none_left_eq_some.mp hcall
      obtain ⟨system, hstep, rfl⟩ := Option.map_eq_some_iff.mp hbegin
      exact kept_goes hkept hstep (fun _ => Or.inl rfl) rfl rfl rfl (fun _ hr => hr)
        (fun _ _ h => (nomatch h)) fun p _ =>
          goes_begin hstep rfl rfl (Int.not_lt.mp hclock) fun _ h => (nomatch h)

/-! ### a publication -/

theorem purge_sub (v : EnvVault) (now : Int) (r : JsString) :
    (v.purge now).get r = v.get r ∨ (v.purge now).get r = none := by
  rw [EnvVault.get_purge]
  cases v.get r with
  | none => exact Or.inl rfl
  | some entry =>
    rw [Option.filter_some]
    split
    · exact Or.inl rfl
    · exact Or.inr rfl

/-- a purge leaves what is live -/
theorem Kept.purge_live (hkept : Kept expand s) (hp : p ∈ s.publications) {now : Int}
    (hlive : now < p.publishedAt + defaultTtlMs) :
    (s.vault.purge now).get p.requestId.uuid = s.vault.get p.requestId.uuid := by
  rw [EnvVault.get_purge]
  by_cases hvalue : s.vault.get p.requestId.uuid = none
  · rw [hvalue]
    rfl
  · obtain ⟨e, he, -, hexpires⟩ := hkept.entry hp hvalue
    rw [he]
    exact Option.filter_some_pos (decide_eq_true (hexpires ▸ hlive))

/-- a change that leaves the calls alone, and of the vault only what is live, or in use by nobody -/
theorem kept_vault (hkept : Kept expand s) (hsystem : t.system = s.system)
    (hthrown : t.thrown = s.thrown) (hclock : s.clock ≤ t.clock)
    (hpublications : t.publications = s.publications)
    (hpublishing : ∀ x r, t.publishing x = some r → s.publishing x = some r)
    (hissued : ∀ r ∈ s.issued, r ∈ t.issued)
    (hsub : ∀ r, t.vault.get r = s.vault.get r ∨ t.vault.get r = none)
    (hstarted : ∀ r ∈ t.started, r ∈ s.started ∨ t.vault.get r = none ∧ r ∈ t.issued)
    (hlost : ∀ p ∈ s.publications, Live t p →
      t.vault.get p.requestId.uuid = s.vault.get p.requestId.uuid ∨
        s.system.pending.getPending p.requestId.uuid = none ∧ ∀ x input,
          s.system.pc x = .create input .insert → input.requestId.uuid ≠ p.requestId.uuid) :
    Kept expand t := by
  refine ⟨by rw [hsystem]; exact hkept.leased, fun r e hr => ?_, fun p hp => ?_, ?_, fun r hr => ?_,
    fun x input pc hx => ?_, by rw [hsystem]; exact hkept.alone, fun x r hx => ?_, fun r hr => ?_,
    fun p hp => ?_⟩
  · rw [hpublications]
    rcases hsub r with h | h
    · exact hkept.entries r e (h.symm.trans hr)
    · rw [hr] at h
      cases h
  · rw [hpublications] at hp
    obtain ⟨htext, henv, hexpand, hin⟩ := hkept.accepted p hp
    exact ⟨htext, henv, hexpand, hissued _ hin⟩
  · rw [hpublications]
    exact hkept.single
  · rw [hsystem] at hr
    exact hissued r (hkept.used r hr)
  · rw [hsystem] at hx ⊢
    obtain ⟨hin, hinsert⟩ := hkept.creating x input pc hx
    exact ⟨hissued _ hin, hinsert⟩
  · obtain ⟨hr, hsole⟩ := hkept.publishing x r (hpublishing x r hx)
    rw [hsystem]
    exact ⟨hissued r hr, hsole⟩
  · rcases hstarted r hr with hold | hnew
    · obtain ⟨hnone, hin⟩ := hkept.started r hold
      refine ⟨?_, hissued r hin⟩
      rcases hsub r with h | h
      · exact h.trans hnone
      · exact h
    · exact hnew
  · rw [hpublications] at hp
    exact (hkept.request p hp).of_vault hsystem hthrown hclock (hsub _) (hlost p hp)

theorem kept_publishes (hkept : Kept expand s) {id : CallId} {level : PendingApprovalLevel}
    {inputsHash planSummary : JsString} (haccepted : p.Accepted expand s)
    (hput : (s.vault.put p.requestId.text p.env p.publishedAt).1 = true) {system : System}
    (hstep : Hitl.step s.system
      (.begin id (.createPendingApproval (p.input level inputsHash planSummary))) = some system) :
    Kept expand { s with
      vault := (s.vault.put p.requestId.text p.env p.publishedAt).2
      clock := p.publishedAt
      issued := p.requestId.uuid :: s.issued
      system := system
      publications := p :: s.publications
      publishing := Function.update s.publishing id (some p.requestId.text) } := by
  obtain ⟨hclock, hfresh, htext, henv, hexpand⟩ := haccepted
  -- its call is one more creation
  have hbegun : Kept expand { s with system := system, issued := p.requestId.uuid :: s.issued } := by
    refine kept_onCall (l := .begin id (.createPendingApproval (p.input level inputsHash planSummary)))
      hkept trivial ?_
    have hfresh' : (p.input level inputsHash planSummary).requestId.uuid ∉ s.issued := hfresh
    rw [Core.onCall, if_neg hfresh', hstep]
    rfl
  obtain ⟨hpending, hpc⟩ : system.pending = s.system.pending ∧
      system.pc id = .create (p.input level inputsHash planSummary) .insert := by
    cases step_moved hstep with
    | begun id op hs ht =>
      subst ht
      exact ⟨rfl, if_pos rfl⟩
  have hunused : p.requestId.uuid ∉ system.pending.used := by
    rw [hpending]
    exact fun h => hfresh (hkept.used _ h)
  have hnone : system.pending.getPending p.requestId.uuid = none := by
    by_contra hne
    exact hunused (system.pending.covers _ hne)
  have hother : ∀ p' ∈ s.publications, p'.requestId.uuid ≠ p.requestId.uuid := by
    intro p' hp' hsame
    obtain ⟨-, -, -, hin⟩ := hkept.accepted p' hp'
    exact hfresh (hsame ▸ hin)
  have hget := EnvVault.get_put hput
  rw [htext] at hget
  have hself := (hget p.requestId.uuid).trans (if_pos rfl)
  have hrest : ∀ r, r ≠ p.requestId.uuid →
      (s.vault.put p.requestId.uuid p.env p.publishedAt).2.get r
        = (s.vault.purge p.publishedAt).get r := fun r hr => (hget r).trans (if_neg hr)
  rw [htext]
  refine ⟨hbegun.leased, fun r e hr => ?_, fun p' hp' => ?_, fun p' hp' p'' hp'' hsame => ?_, hbegun.used,
    hbegun.creating, hbegun.alone, fun x r hx => ?_, fun r hr => ?_, fun p' hp' => ?_⟩
  · by_cases hrp : r = p.requestId.uuid
    · rw [hrp, hself, Option.some.injEq] at hr
      subst hr
      exact ⟨p, List.mem_cons_self, hrp.symm, rfl, rfl⟩
    · rw [hrest r hrp] at hr
      rcases purge_sub s.vault p.publishedAt r with h | h
      · obtain ⟨p', hp', hfields⟩ := hkept.entries r e (h.symm.trans hr)
        exact ⟨p', List.mem_cons_of_mem _ hp', hfields⟩
      · rw [hr] at h
        cases h
  · rcases List.mem_cons.mp hp' with rfl | hp'
    · exact ⟨htext, henv, hexpand, List.mem_cons_self⟩
    · obtain ⟨htext', henv', hexpand', hin⟩ := hkept.accepted p' hp'
      exact ⟨htext', henv', hexpand', List.mem_cons_of_mem _ hin⟩
  · rcases List.mem_cons.mp hp' with h' | hold' <;> rcases List.mem_cons.mp hp'' with h'' | hold''
    · exact h'.trans h''.symm
    · exact absurd (h' ▸ hsame.symm) (hother p'' hold'')
    · exact absurd (h'' ▸ hsame) (hother p' hold')
    · exact hkept.single p' hold' p'' hold'' hsame
  · by_cases hxid : x = id
    · subst hxid
      have hr := (Function.update_self x _ s.publishing).symm.trans hx
      rw [Option.some.injEq] at hr
      subst hr
      exact ⟨List.mem_cons_self, fun y input pc hy hsame => hbegun.alone y x _ _ _ _ hy hpc hsame⟩
    · exact hbegun.publishing x r ((Function.update_of_ne hxid _ _).symm.trans hx)
  · obtain ⟨hr', hin⟩ := hkept.started r hr
    refine ⟨?_, List.mem_cons_of_mem _ hin⟩
    show (s.vault.put p.requestId.uuid p.env p.publishedAt).2.get r = none
    rw [hrest r (fun h => hfresh (h ▸ hin))]
    rcases purge_sub s.vault p.publishedAt r with h | h
    · exact h.trans hr'
    · exact h
  · rcases List.mem_cons.mp hp' with rfl | hp'
    · -- nothing but its creation knows its id
      refine ⟨fun x input hx hsame => ?_, fun row hrow => ?_, fun x q approver pc hx hq => ?_, ?_,
        fun hused => absurd hused hunused⟩
      · have hxid := hbegun.alone x id _ _ _ _ hx hpc hsame
        subst hxid
        have hinput := hx.symm.trans hpc
        cases hinput
        refine ⟨fun _ => ?_, rfl, rfl⟩
        show (s.vault.put p'.requestId.uuid p'.env p'.publishedAt).2.get p'.requestId.uuid ≠ none
        rw [hself]
        exact Option.some_ne_none _
      · exact absurd (hnone.symm.trans hrow) (Option.some_ne_none _).symm
      · have hstage : (system.pc x).stage p'.requestId.uuid = none := by
          by_contra hne
          exact hunused (used_of_stage hbegun.leased hne)
        rw [hx, Pc.stage, if_pos hq] at hstage
        cases pc with
        | audit row => cases hstage
        | execute row => cases hstage
        | executing row => cases hstage
        | remove row result => cases hstage
        | _ => trivial
      · rintro ⟨i, hi⟩
        exact absurd (used_of_executed hbegun.leased hi) hunused
    · refine (hbegun.request p' hp').of_vault rfl rfl hclock ?_ fun hlive => Or.inl ?_
      · show (s.vault.put p.requestId.uuid p.env p.publishedAt).2.get _ = _ ∨ _
        rw [hrest _ (hother p' hp')]
        exact purge_sub s.vault p.publishedAt _
      · show (s.vault.put p.requestId.uuid p.env p.publishedAt).2.get _ = _
        rw [hrest _ (hother p' hp')]
        exact hkept.purge_live hp' hlive

theorem kept_onPublish (hkept : Kept expand s) {id : CallId} {level : PendingApprovalLevel}
    {inputsHash planSummary : JsString} (haccepted : p.Accepted expand s)
    (hpublish : s.onPublish id p level inputsHash planSummary = some t) : Kept expand t := by
  rw [Core.onPublish] at hpublish
  dsimp only at hpublish
  split at hpublish
  next hput =>
    obtain ⟨system, hstep, rfl⟩ := Option.map_eq_some_iff.mp hpublish
    exact kept_publishes hkept haccepted hput hstep
  next hput =>
    cases hpublish
    have hthrows := EnvVault.put_throws (Bool.not_eq_true _ ▸ hput)
    refine kept_vault hkept rfl rfl haccepted.1 rfl (fun _ _ h => h)
      (fun r hr => List.mem_cons_of_mem _ hr) (fun r => ?_) (fun r hr => Or.inl hr)
      fun p' hp' hlive => Or.inl ?_
    · show (s.vault.put p.requestId.text p.env p.publishedAt).2.get r = _ ∨ _
      rw [hthrows]
      exact purge_sub s.vault p.publishedAt r
    · show (s.vault.put p.requestId.text p.env p.publishedAt).2.get _ = _
      rw [hthrows]
      exact hkept.purge_live hp' hlive

/-- the values of a publication without an approval are out of the vault again -/
theorem get_after_put {v : EnvVault}
    (hput : (s.vault.put p.requestId.text p.env p.publishedAt).1 = true)
    (hv : v = (s.vault.put p.requestId.text p.env p.publishedAt).2 ∨
      v = (s.vault.put p.requestId.text p.env p.publishedAt).2.discard p.requestId.text) (r : JsString) :
    (v.discard p.requestId.text).get r = (s.vault.purge p.publishedAt).get r ∨
      r = p.requestId.text ∧ (v.discard p.requestId.text).get r = none := by
  rw [EnvVault.get_discard]
  by_cases hr : r = p.requestId.text
  · exact Or.inr ⟨hr, if_pos hr⟩
  · refine Or.inl ?_
    rw [if_neg hr]
    rcases hv with rfl | rfl
    · rw [EnvVault.get_put hput, if_neg hr]
    · rw [EnvVault.get_discard, if_neg hr, EnvVault.get_put hput, if_neg hr]

theorem onPublishNow_vault (s : Core) (registered answered : Bool) (haccepted : p.Accepted expand s)
    (r : JsString) :
    (s.onPublishNow expand p registered answered).vault.get r = (s.vault.purge p.publishedAt).get r ∨
      r = p.requestId.text ∧ (s.onPublishNow expand p registered answered).vault.get r = none := by
  obtain ⟨-, -, -, henv, hexpand⟩ := haccepted
  have hnames : p.env.map Prod.fst ≠ [] := fun h => henv (List.map_eq_nil_iff.mp h)
  rw [Core.onPublishNow]
  dsimp only
  split
  next hput =>
    cases registered with
    | false => exact get_after_put hput (Or.inl rfl) r
    | true =>
      rw [if_pos rfl]
      split
      next hreturned =>
        rw [Bool.and_eq_true, Bool.not_eq_true'] at hreturned
        obtain ⟨-, hvault⟩ := startPreviewService_takes hexpand hnames hreturned.1
        show (startPreviewService expand _ _ _ _).2.get r = _ ∨ _ ∧
          (startPreviewService expand _ _ _ _).2.get r = _
        rw [hvault]
        exact get_after_put hput (Or.inl rfl) r
      next => exact get_after_put hput (startPreviewService_vault _ _ _ _) r
  next hput =>
    left
    show (s.vault.put p.requestId.text p.env p.publishedAt).2.get r = _
    rw [EnvVault.put_throws (Bool.not_eq_true _ ▸ hput)]

theorem onPublishNow_started (s : Core) {registered answered : Bool} {r : JsString}
    (hr : r ∈ (s.onPublishNow expand p registered answered).started) :
    r ∈ s.started ∨ r = p.requestId.text := by
  rw [Core.onPublishNow] at hr
  dsimp only at hr
  split at hr
  next =>
    cases registered with
    | false => exact Or.inl hr
    | true =>
      rw [if_pos rfl] at hr
      split at hr
      next => exact (List.mem_cons.mp hr).symm
      next => exact Or.inl hr
  next => exact Or.inl hr

/-- what `onPublishNow` leaves alone -/
theorem onPublishNow_rest (expand : Option JsString → Option (List JsString)) (p : Publication)
    (s : Core) (registered answered : Bool) :
    (s.onPublishNow expand p registered answered).system = s.system ∧
      (s.onPublishNow expand p registered answered).publications = s.publications ∧
      (s.onPublishNow expand p registered answered).publishing = s.publishing ∧
      (s.onPublishNow expand p registered answered).thrown = s.thrown ∧
      (s.onPublishNow expand p registered answered).clock = p.publishedAt ∧
      (s.onPublishNow expand p registered answered).issued = p.requestId.uuid :: s.issued := by
  rw [Core.onPublishNow]
  dsimp only
  split
  next =>
    cases registered with
    | false => exact ⟨rfl, rfl, rfl, rfl, rfl, rfl⟩
    | true =>
      rw [if_pos rfl]
      split <;> exact ⟨rfl, rfl, rfl, rfl, rfl, rfl⟩
  next => exact ⟨rfl, rfl, rfl, rfl, rfl, rfl⟩

theorem kept_onPublishNow (hkept : Kept expand s) {registered answered : Bool}
    (haccepted : p.Accepted expand s) : Kept expand (s.onPublishNow expand p registered answered) := by
  have hvault := onPublishNow_vault s registered answered haccepted
  have hstarted : ∀ r ∈ (s.onPublishNow expand p registered answered).started,
      r ∈ s.started ∨ r = p.requestId.text := fun r hr => onPublishNow_started s hr
  obtain ⟨hsystem, hpublications, hpublishing, hthrown, hclock, hissued⟩ :=
    onPublishNow_rest expand p s registered answered
  generalize s.onPublishNow expand p registered answered = t at *
  obtain ⟨hlater, hfresh, htext, -, -⟩ := haccepted
  refine kept_vault hkept hsystem hthrown (by rw [hclock]; exact hlater) hpublications
    (fun x r h => by rw [← hpublishing]; exact h)
    (fun r hr => by rw [hissued]; exact List.mem_cons_of_mem _ hr) (fun r => ?_) (fun r hr => ?_)
    fun p' hp' hlive => Or.inl ?_
  · rcases hvault r with h | ⟨-, h⟩
    · rw [h]
      exact purge_sub s.vault p.publishedAt r
    · exact Or.inr h
  · rcases hstarted r hr with hold | hnew
    · exact Or.inl hold
    · refine Or.inr ⟨?_, by rw [hissued, hnew, htext]; exact List.mem_cons_self⟩
      rcases hvault r with h | ⟨-, h⟩
      · -- no publication had this id
        rw [h, hnew, htext]
        rcases purge_sub s.vault p.publishedAt p.requestId.uuid with h | h
        · rw [h]
          by_contra hvalue
          obtain ⟨e, he⟩ := Option.ne_none_iff_exists'.mp hvalue
          obtain ⟨p', hp', hsame, -⟩ := hkept.entries _ e he
          obtain ⟨-, -, -, hin⟩ := hkept.accepted p' hp'
          exact hfresh (hsame ▸ hin)
        · exact h
      · exact h
  · obtain ⟨-, -, -, hin⟩ := hkept.accepted p' hp'
    rcases hvault p'.requestId.uuid with h | ⟨h, -⟩
    · rw [h]
      refine hkept.purge_live hp' ?_
      rw [← hclock]
      exact hlive
    · rw [htext] at h
      exact absurd (h ▸ hin) hfresh

theorem kept_onSettle (hkept : Kept expand s) {id : CallId} (horderly : Orderly s (.settle id))
    (hsettle : s.onSettle id = some t) : Kept expand t := by
  have hpublishing : ∀ x r, Function.update s.publishing id none x = some r →
      s.publishing x = some r := by
    intro x r hx
    by_cases hxid : x = id
    · rw [hxid, Function.update_self] at hx
      cases hx
    · exact (Function.update_of_ne hxid _ _).symm.trans hx
  rw [Core.onSettle] at hsettle
  split at hsettle
  next =>
    cases hsettle
    exact kept_vault hkept rfl rfl le_rfl rfl hpublishing (fun _ hr => hr) (fun _ => Or.inl rfl)
      (fun r hr => Or.inl hr) fun p' hp' hlive => Or.inl rfl
  next requestId outcome hnot hr hpc =>
    cases hsettle
    have hthrew : Pc.threw (s.system.pc id) = true := by
      rw [hpc]
      cases outcome with
      | returned result => exact absurd rfl (hnot result)
      | threw error => rfl
      | failed => rfl
    obtain ⟨hin, hsole⟩ := hkept.publishing id requestId hr
    refine kept_vault hkept rfl rfl le_rfl rfl hpublishing (fun _ hr => hr) (fun r => ?_)
      (fun r hr => Or.inl hr) fun p hp hlive => ?_
    · show (s.vault.discard requestId).get r = _ ∨ (s.vault.discard requestId).get r = _
      rw [EnvVault.get_discard]
      split
      · exact Or.inr rfl
      · exact Or.inl rfl
    · show (s.vault.discard requestId).get p.requestId.uuid = _ ∨ _
      rw [EnvVault.get_discard]
      split
      next hsame =>
        cases hhas : s.vault.has requestId s.clock with
        | true =>
          refine Or.inr ⟨by rw [hsame]; exact horderly requestId hr hthrew hhas, fun x input hx hx' => ?_⟩
          have hxid := hsole x input _ hx (hx'.trans hsame)
          rw [hxid, hpc] at hx
          cases hx
        | false =>
          have hgone : s.vault.has p.requestId.uuid s.clock = false := by
            rw [hsame]
            exact hhas
          exact Or.inl (hkept.none_of_has hp hlive hgone).symm
      next => exact Or.inl rfl
  next => cases hsettle

/-! ## runs -/

theorem kept_step {a : Action} (hkept : Kept expand s) (horderly : Orderly s a)
    (hstep : s.step expand a = some t) : Kept expand t := by
  cases a with
  | publish id p level inputsHash planSummary =>
    obtain ⟨haccepted, hstep⟩ := Option.ite_none_right_eq_some.mp hstep
    exact kept_onPublish hkept haccepted hstep
  | publishNow p registered answered =>
    obtain ⟨haccepted, hstep⟩ := Option.ite_none_right_eq_some.mp hstep
    cases hstep
    exact kept_onPublishNow hkept haccepted
  | settle id => exact kept_onSettle hkept horderly hstep
  | call label => exact kept_onCall hkept horderly hstep

theorem kept_init (now : Int) : Kept expand (Core.init now) where
  leased := leased_init
  entries _ _ h := nomatch h
  accepted _ h := absurd h List.not_mem_nil
  single _ h := absurd h List.not_mem_nil
  used _ h := absurd h List.not_mem_nil
  creating _ _ _ h := nomatch h
  alone _ _ _ _ _ _ h := nomatch h
  publishing _ _ h := nomatch h
  started _ h := absurd h List.not_mem_nil
  request _ h := absurd h List.not_mem_nil

theorem Kept.valuesKept (hkept : Kept expand s) : ValuesKept s where
  pending p hp hlive row hrow hfree := by
    obtain ⟨htext, -⟩ := hkept.accepted p hp
    rcases ((hkept.request p hp).row row hrow).2 hlive with hvalue | ⟨hclaimed, -⟩
    · obtain ⟨e, he, henv, hexpires⟩ := hkept.entry hp hvalue
      rw [htext, EnvVault.take_of_get he (by rw [hexpires]; exact hlive), henv]
    · exact absurd hfree hclaimed
  gone p hp hlive hover := by
    obtain ⟨htext, -⟩ := hkept.accepted p hp
    rw [htext]
    rcases hover with hexecuted | ⟨hused, hgone⟩
    · exact (hkept.request p hp).executed hexecuted
    · exact (hkept.request p hp).gone hused hgone hlive
  started r hr := (hkept.started r hr).1

end

theorem values_kept (expand : Option JsString → Option (List JsString)) (now : Int)
    (as : List Action) (s : Core)
    (hguard : Guarded (Core.step expand) Orderly (Core.init now) as)
    (hrun : run (Core.step expand) (Core.init now) as = some s) : ValuesKept s :=
  (run_inv_guarded (fun _ _ _ hkept horderly hstep => kept_step hkept horderly hstep) as
    (Core.init now) s (kept_init now) hguard hrun).valuesKept

/-! ## runs -/

def demoPayload : JsString :=
  lit "\x7b\"files\":\x7b\"index.html\":\"Hola\"\x7d,\"template\":\"static\",\"ttlSeconds\":3600,\"envNames\":[\"API_KEY\"]\x7d"

/-- the template accepts this payload; others are not read here -/
def demoExpand (payload : Option JsString) : Option (List JsString) :=
  if payload = some demoPayload then some [lit "API_KEY"] else none

def demo : Publication where
  requestId := sampleRequest
  env := [(lit "API_KEY", lit "s3cr3t")]
  payload := demoPayload
  publishedAt := 0

/-- the publication of the demo waits for its approval -/
def published : List Action :=
  [.publish 0 demo .confirm (lit "h1") (lit "Publicar una app desde el editor del iPhone"),
    .call (okAt 0 1), .call (okAt 0 2), .settle 0]

/-- approval 1 has called the executor -/
def executing : List Action :=
  published ++ [approval 1, okAt 1 10, okAt 1 11, okAt 1 12, okAt 1 13, okAt 1 14].map .call

/-- the demo is approved and started -/
def startedDemo : List Action := executing ++ [.call (okAt 1 15), .call (okAt 1 16)]

/-- nothing is deleted by a rejection or a timeout, nothing is given back, and no creation throws -/
def quiet (s : Core) : Action → Bool
  | .call (.go id reply) =>
    (deletes s.system id reply).isNone && (releases s.system id reply).isNone
  | .settle id => !Pc.threw (s.system.pc id)
  | _ => true

theorem orderly_of_quiet {s : Core} {a : Action} (h : quiet s a = true) : Orderly s a := by
  cases a with
  | publish => trivial
  | publishNow => trivial
  | settle id =>
    intro r _ hthrew
    rw [quiet, hthrew] at h
    cases h
  | call label =>
    cases label with
    | begin => trivial
    | die => trivial
    | go id reply =>
      obtain ⟨hdeletes, hreleases⟩ := Bool.and_eq_true_iff.mp h
      refine ⟨fun r hr => ?_, fun p _ hr => ?_⟩
      · rw [hr] at hdeletes
        cases hdeletes
      · rw [hr] at hreleases
        cases hreleases

theorem values_kept_startedDemo : ∃ s, run (Core.step demoExpand) (Core.init 0) startedDemo = some s ∧
    .execSucceeded 1 demo.requestId.uuid ∈ s.system.history ∧ ValuesKept s := by
  have hrun : (run (Core.step demoExpand) (Core.init 0) startedDemo).map
      (fun s => decide (.execSucceeded 1 demo.requestId.uuid ∈ s.system.history)) = some true := by
    decide +kernel
  obtain ⟨s, hs, hmem⟩ := Option.map_eq_some_iff.mp hrun
  exact ⟨s, hs, of_decide_eq_true hmem, values_kept demoExpand 0 startedDemo s
    (guarded_of_checkAll (fun _ _ h => orderly_of_quiet h) _ _ (by decide +kernel)) hs⟩

/-- the Executor fails, and the approval is given back without its values -/
def failedDemo : List Action := executing ++ [.call (lostAt 1 15), .call (okAt 1 16), .call (okAt 1 17)]

/-- the owner rejects the demo, and its values stay -/
def rejectedDemo : List Action :=
  published ++ [rejection 2, okAt 2 10, okAt 2 11, okAt 2 12, okAt 2 13].map .call

/-- the audit of the creation fails after the insert -/
def unauditedDemo : List Action :=
  [.publish 0 demo .confirm (lit "h1") (lit "Publicar una app desde el editor del iPhone"),
    .call (okAt 0 1), .call (lostAt 0 2), .settle 0]

/-- a live publication whose row can be approved and has lost its values, or whose row is gone and its
values are not -/
def lost (s : Core) (p : Publication) : Bool :=
  decide (s.clock < p.publishedAt + defaultTtlMs) &&
    match s.system.pending.getPending p.requestId.uuid with
    | some row => row.executingAt.isNone && decide ((s.vault.take p.requestId.text s.clock).1 ≠ some p.env)
    | none => decide (p.requestId.uuid ∈ s.system.pending.used) &&
      (s.vault.get p.requestId.text).isSome

theorem not_kept_of_lost {s : Core} {p : Publication} (hp : p ∈ s.publications)
    (h : lost s p = true) : ¬ ValuesKept s := by
  intro hkept
  obtain ⟨hlive, h⟩ := Bool.and_eq_true_iff.mp h
  have hlive : s.clock < p.publishedAt + defaultTtlMs := of_decide_eq_true hlive
  split at h
  next row hrow =>
    obtain ⟨hfree, htake⟩ := Bool.and_eq_true_iff.mp h
    exact of_decide_eq_true htake
      (hkept.pending p hp hlive row hrow (Option.isNone_iff_eq_none.mp hfree))
  next hgone =>
    obtain ⟨hused, hvalue⟩ := Bool.and_eq_true_iff.mp h
    have hnone := hkept.gone p hp hlive (Or.inr ⟨of_decide_eq_true hused, hgone⟩)
    rw [hnone] at hvalue
    cases hvalue

theorem values_lost :
    (∃ s, run (Core.step demoExpand) (Core.init 0) failedDemo = some s ∧ ¬ ValuesKept s) ∧
    (∃ s, run (Core.step demoExpand) (Core.init 0) rejectedDemo = some s ∧ ¬ ValuesKept s) ∧
    (∃ s, run (Core.step demoExpand) (Core.init 0) unauditedDemo = some s ∧ ¬ ValuesKept s) := by
  have hlost : ∀ {as : List Action}, (run (Core.step demoExpand) (Core.init 0) as).map
      (fun s => s.publications.any (lost s)) = some true →
      ∃ s, run (Core.step demoExpand) (Core.init 0) as = some s ∧ ¬ ValuesKept s := by
    intro as h
    obtain ⟨s, hs, hany⟩ := Option.map_eq_some_iff.mp h
    obtain ⟨p, hp, hlost⟩ := List.any_eq_true.mp hany
    exact ⟨s, hs, not_kept_of_lost hp hlost⟩
  refine ⟨hlost ?_, hlost ?_, hlost ?_⟩
  · decide +kernel
  · decide
  · decide

end ExecutorClient
