import JinCore.ExecutorClient.Publish
import JinCore.ExecutorClient.Rows

/-!
# One publication, its row and its values

As long as a publication is live, its values are in the vault, or its row is claimed by a call whose
executor has been called.

* `Live`             less than the time to live has passed;
* `RequestKept`      the invariant of one publication;
* `Goes`             what a label of the calls may do to its values;
* `requestKept_goes`, `RequestKept.of_vault`   a label, and a change of the vault alone.
-/

namespace ExecutorClient
open JsString Common Hitl Runs Lease PendingApprovals

/-- less than the time to live has passed since the publication -/
def Live (s : Core) (p : Publication) : Prop := s.clock < p.publishedAt + defaultTtlMs

/-- the row, or a copy of it, says what was published -/
def Published (p : Publication) (row : PendingApprovalRow) : Prop :=
  row.toolName = startPreviewServiceTool ∧ row.payload = some p.payload

def CallKept (s : Core) (p : Publication) (x : CallId) : ApprovePc → Prop
  | .audit row | .execute row => Published p row
  | .executing _ => s.thrown x = false → s.vault.get p.requestId.uuid = none
  | .remove _ _ => s.vault.get p.requestId.uuid = none
  | _ => True

structure RequestKept (s : Core) (p : Publication) : Prop where
  insert : ∀ x input, s.system.pc x = .create input .insert → input.requestId.uuid = p.requestId.uuid →
    (Live s p → s.vault.get p.requestId.uuid ≠ none) ∧
      input.toolName = startPreviewServiceTool ∧ input.payload = some p.payload
  row : ∀ row, s.system.pending.getPending p.requestId.uuid = some row → Published p row ∧
    (Live s p → s.vault.get p.requestId.uuid ≠ none ∨ row.executingAt ≠ none ∧
      ∀ x, (s.system.pc x).stage p.requestId.uuid ≠ none → Pc.past (s.system.pc x) = true)
  calls : ∀ x q approver pc, s.system.pc x = .approve q approver pc →
    q.uuid = p.requestId.uuid → CallKept s p x pc
  executed : (∃ i, .execSucceeded i p.requestId.uuid ∈ s.system.history) →
    s.vault.get p.requestId.uuid = none
  gone : p.requestId.uuid ∈ s.system.pending.used →
    s.system.pending.getPending p.requestId.uuid = none → Live s p →
    s.vault.get p.requestId.uuid = none

/-- what a label of the calls does to the vault, for a publication -/
structure Goes (s t : Core) (l : Label) (p : Publication) : Prop where
  step : Hitl.step s.system l = some t.system
  clock : s.clock ≤ t.clock
  fresh : ∀ x input, l = .begin x (.createPendingApproval input) →
    input.requestId.uuid ≠ p.requestId.uuid
  thrown : ∀ x, x ≠ l.id → t.thrown x = s.thrown x
  /-- an executor that starts takes the values, and nothing else touches them -/
  vault : t.vault.get p.requestId.uuid = s.vault.get p.requestId.uuid ∨
    t.vault.get p.requestId.uuid = none ∧ ∃ q approver row,
      s.system.pc l.id = .approve q approver (.execute row) ∧
      t.system.pc l.id = .approve q approver (.executing row) ∧ q.uuid = p.requestId.uuid
  starts : ∀ q approver row, s.system.pc l.id = .approve q approver (.execute row) →
    t.system.pc l.id = .approve q approver (.executing row) → q.uuid = p.requestId.uuid →
    Published p row → t.thrown l.id = false → t.vault.get p.requestId.uuid = none
  succeeds : ∀ q approver row row' result, s.system.pc l.id = .approve q approver (.executing row) →
    t.system.pc l.id = .approve q approver (.remove row' result) → s.thrown l.id = false
  deletes : ∀ id reply, l = .go id reply → deletes s.system id reply = some p.requestId.uuid →
    Live t p → s.vault.get p.requestId.uuid = none
  releases : ∀ id reply, l = .go id reply → releases s.system id reply = some p.requestId.uuid →
    Live t p → s.vault.get p.requestId.uuid ≠ none

section
variable {s t : Core} {l : Label} {p : Publication}

theorem Goes.live (hg : Goes s t l p) (h : Live t p) : Live s p := lt_of_le_of_lt hg.clock h

theorem Goes.taken (hg : Goes s t l p) (h : s.vault.get p.requestId.uuid = none) :
    t.vault.get p.requestId.uuid = none := by
  rcases hg.vault with hsame | ⟨hnone, -⟩
  · exact hsame.trans h
  · exact hnone

theorem published_of_eq {row row' : PendingApprovalRow} (h : Published p row)
    (htool : row'.toolName = row.toolName) (hpayload : row'.payload = row.payload) :
    Published p row' := ⟨htool.trans h.1, hpayload.trans h.2⟩

/-- a failed execution gives back its claim only with the values still there -/
theorem Goes.not_released (hg : Goes s t l p) (hlive : Live t p)
    (hnone : s.vault.get p.requestId.uuid = none)
    (hrow : s.system.pending.getPending p.requestId.uuid ≠ none)
    (hpast : Pc.past (s.system.pc l.id) = true)
    (hstage : (s.system.pc l.id).stage p.requestId.uuid = some .held) :
    t.system.pending.getPending p.requestId.uuid = s.system.pending.getPending p.requestId.uuid := by
  obtain ⟨q, approver, apc, hpc, hwhere⟩ := past_iff.mp hpast
  rw [hpc] at hstage
  have hq : q.uuid = p.requestId.uuid := by
    by_contra hne
    rw [Pc.stage, if_neg hne] at hstage
    cases hstage
  rw [Pc.stage, if_pos hq] at hstage
  cases step_moved hg.step with
  | begun id op hs ht => rw [ht]
  | stopped id ht => rw [ht]; rfl
  | create id reply input pc m hs => exact absurd (hs.symm.trans hpc) Pc.noConfusion
  | reject id reply q' approver' pc hs => exact absurd (hs.symm.trans hpc) Pc.noConfusion
  | sweep id reply now pc hs => exact absurd (hs.symm.trans hpc) Pc.noConfusion
  | approve id reply q' approver' pc hs ht =>
    cases hs.symm.trans hpc
    rw [ht]
    rcases hwhere with ⟨row, rfl⟩ | ⟨row, error, rfl⟩ | ⟨row, result, rfl⟩
    · cases hstage
    · show (if reply.fate.applies then s.system.pending.releaseClaim q.uuid (some error)
        else s.system.pending).getPending _ = _
      split
      next happ =>
        have hsome : (s.system.pending.getPending q.uuid).isSome = true := by
          rw [hq]
          exact Option.isSome_iff_ne_none.mpr hrow
        refine absurd hnone (hg.releases id reply rfl ?_ hlive)
        rw [ExecutorClient.releases, hs]
        dsimp only
        rw [if_pos ⟨happ, hsome⟩, hq]
      next => rfl
    · cases hstage

/-- what the label does not start keeps its values -/
theorem Goes.vault_of_stage (hg : Goes s t l p)
    (hnot : ∀ q approver row, s.system.pc l.id = .approve q approver (.execute row) →
      q.uuid ≠ p.requestId.uuid) :
    t.vault.get p.requestId.uuid = s.vault.get p.requestId.uuid := by
  rcases hg.vault with hsame | ⟨-, q, approver, row, hpc, -, hq⟩
  · exact hsame
  · exact absurd hq (hnot q approver row hpc)

theorem requestKept_row (hkept : RequestKept s p) (hleased' : Leased t.system)
    (hg : Goes s t l p) {row : PendingApprovalRow}
    (hrow : t.system.pending.getPending p.requestId.uuid = some row) : Published p row ∧
      (Live t p → t.vault.get p.requestId.uuid ≠ none ∨ row.executingAt ≠ none ∧
        ∀ x, (t.system.pc x).stage p.requestId.uuid ≠ none → Pc.past (t.system.pc x) = true) := by
  obtain ⟨events, hspec⟩ := step_spec hg.step
  -- another call keeps its stage, and has kept it alone
  have hothers : ∀ x, x ≠ l.id → t.system.pc x = s.system.pc x := hspec.others
  -- the row was there, and it or its values have been kept
  have hfrom : ∀ old, s.system.pending.getPending p.requestId.uuid = some old →
      row.toolName = old.toolName → row.payload = old.payload →
      (Live t p → s.vault.get p.requestId.uuid = none → old.executingAt ≠ none →
        row.executingAt ≠ none) → Published p row ∧
      (Live t p → t.vault.get p.requestId.uuid ≠ none ∨ row.executingAt ≠ none ∧
        ∀ x, (t.system.pc x).stage p.requestId.uuid ≠ none → Pc.past (t.system.pc x) = true) := by
    intro old hold htool hpayload hclaimed
    obtain ⟨hpublished, hvalues⟩ := hkept.row old hold
    refine ⟨published_of_eq hpublished htool hpayload, fun hlive => ?_⟩
    rcases hg.vault with hsame | ⟨-, q, approver, row', hpc, hpc', hq⟩
    · rw [hsame]
      by_cases hnone : s.vault.get p.requestId.uuid = none
      · rcases hvalues (hg.live hlive) with hvalue | ⟨hexecuting, hpast⟩
        · exact absurd hnone hvalue
        · refine Or.inr ⟨hclaimed hlive hnone hexecuting, fun x hx => ?_⟩
          by_cases hxl : x = l.id
          · subst hxl
            refine past_step hg.step (hpast l.id fun hstage => ?_) hx
            -- a call without a stage gets one only with a claim, which an unclaimed row gives
            cases hspec.row p.requestId.uuid with
            | claim now row₀ hg₀ hx₀ =>
              rw [hold, Option.some.injEq] at hg₀
              rw [hg₀] at hexecuting
              exact hexecuting hx₀
            | quiet _ _ hs => exact hx (hs.trans hstage)
            | born _ _ _ _ _ _ _ ha => exact hx ha
            | first _ _ _ _ _ _ _ _ ha => exact hx ha
            | escalate _ _ _ _ ha => exact hx ha
            | release _ _ _ _ ha => exact hx ha
            | retire _ _ _ _ _ ha => exact hx ha
            | leave _ _ _ _ _ ha => exact hx ha
            | evict _ _ _ _ _ _ _ ha => exact hx ha
            | start _ _ hb => rw [hstage] at hb; cases hb
            | succeed _ _ hb => rw [hstage] at hb; cases hb
            | fail _ _ hb => rw [hstage] at hb; cases hb
            | interrupt _ _ _ ha => exact hx ha
          · rw [hothers x hxl] at hx ⊢
            exact hpast x hx
      · exact Or.inl hnone
    · -- the executor has just been called
      have hstage : (t.system.pc l.id).stage p.requestId.uuid = some .running := by
        rw [hpc', Pc.stage, if_pos hq]
        rfl
      refine Or.inr ⟨claimed_of_stage hleased' hstage hrow, fun x hx => ?_⟩
      obtain ⟨st, hst⟩ := Option.ne_none_iff_exists'.mp hx
      rw [stage_unique hleased' hst hstage, hpc']
      rfl
  cases hspec.row p.requestId.uuid with
  | quiet hget => exact hfrom row (hget.symm.trans hrow) rfl rfl fun _ _ h => h
  | born input now hr hu hu' hget =>
    rcases rows_step hg.step p.requestId.uuid with ⟨hused, -⟩ | ⟨id, reply, input', rfl, hpc, hinsert⟩
    · rw [hused] at hu'
      exact absurd hu' hu
    · obtain ⟨-, hused, hrows⟩ := insert_cases hinsert
      rw [hused] at hu'
      have hr' := (List.mem_cons.mp hu').resolve_right hu
      rw [hrows, if_pos hr', Option.some.injEq] at hrow
      obtain ⟨hvalue, htool, hpayload⟩ := hkept.insert id input' hpc hr'.symm
      rw [← hrow]
      refine ⟨⟨htool, hpayload⟩, fun hlive => Or.inl ?_⟩
      rw [hg.vault_of_stage fun q approver row' h => absurd (hpc.symm.trans h) Pc.noConfusion]
      exact hvalue (hg.live hlive)
  | first now approver old hold hf hget =>
    rw [hrow, Option.some.injEq] at hget
    exact hfrom old hold (by rw [hget]; rfl) (by rw [hget]; rfl) fun _ _ h => by rw [hget]; exact h
  | escalate now hget =>
    rw [hrow] at hget
    obtain ⟨old, hold, rfl⟩ := Option.map_eq_some_iff.mp hget.symm
    exact hfrom old hold rfl rfl fun _ _ h => h
  | claim now old hold hx hget =>
    rw [hrow, Option.some.injEq] at hget
    exact hfrom old hold (by rw [hget]; rfl) (by rw [hget]; rfl) fun _ _ h => absurd hx h
  | release error hget hu hb =>
    rw [hrow] at hget
    obtain ⟨old, hold, rfl⟩ := Option.map_eq_some_iff.mp hget.symm
    refine hfrom old hold rfl rfl fun hlive hnone hexecuting => ?_
    rcases (hkept.row old hold).2 (hg.live hlive) with hvalue | ⟨-, hpast⟩
    · exact absurd hnone hvalue
    · have hsame := hg.not_released hlive hnone (by rw [hold]; exact Option.some_ne_none old)
        (hpast l.id (by rw [hb]; exact Option.some_ne_none _)) hb
      rw [hrow, hold, Option.some.injEq] at hsame
      rw [hsame]
      exact hexecuting
  | retire st hst hget =>
    rw [hrow] at hget
    cases hget
  | leave st hst hget => exact hfrom row (hget.symm.trans hrow) rfl rfl fun _ _ h => h
  | evict now old hold hx hget =>
    rw [hrow] at hget
    cases hget
  | start hget => exact hfrom row (hget.symm.trans hrow) rfl rfl fun _ _ h => h
  | succeed hget => exact hfrom row (hget.symm.trans hrow) rfl rfl fun _ _ h => h
  | fail hget => exact hfrom row (hget.symm.trans hrow) rfl rfl fun _ _ h => h
  | interrupt hget => exact hfrom row (hget.symm.trans hrow) rfl rfl fun _ _ h => h

theorem CallKept.of_goes {x : CallId} {pc : ApprovePc} (hg : Goes s t l p) (h : CallKept s p x pc)
    (hthrown : t.thrown x = s.thrown x) : CallKept t p x pc := by
  cases pc with
  | executing row => exact fun hfalse => hg.taken (h (hthrown.symm.trans hfalse))
  | remove row result => exact hg.taken h
  | audit row => exact h
  | execute row => exact h
  | _ => trivial

theorem requestKept_calls (hkept : RequestKept s p) (hg : Goes s t l p) {x : CallId} {q : RequestId}
    {approver : JsString} {pc : ApprovePc} (hx : t.system.pc x = .approve q approver pc)
    (hq : q.uuid = p.requestId.uuid) : CallKept t p x pc := by
  cases approve_step hg.step hx with
  | other hl hs => exact (hkept.calls x q approver pc hs hq).of_goes hg (hg.thrown x (Ne.symm hl))
  | begin hs hpc =>
    rw [hpc]
    trivial
  | goto hl old hs events hh hm =>
    subst hl
    have hold := hkept.calls l.id q approver old hs hq
    generalize t.system.pending = p' at hm
    cases hm with
    | claimed now row hp hfree =>
      rw [hq] at hp
      exact published_of_eq (hkept.row row hp).1 rfl rfl
    | audited row => exact hold
    | started row => exact hg.starts q approver row hs hx hq hold
    | succeeded row result => exact hg.taken (hold (hg.succeeds q approver row row result hs hx))
    | began => trivial
    | resolved => trivial
    | first => trivial
    | lost => trivial
    | unaudited => trivial
    | refused => trivial
    | failed => trivial
    | released => trivial

/-- what one label of the calls preserves, for one publication -/
theorem requestKept_goes (hkept : RequestKept s p) (hleased : Leased s.system)
    (hleased' : Leased t.system) (hfresh : ∀ x input, s.system.pc x = .create input .insert →
      input.requestId.uuid ∉ s.system.pending.used) (hg : Goes s t l p) : RequestKept t p where
  insert x input hx hr := by
    rcases insert_of_step hg.step hx with ⟨pc', hs, hpc'⟩ | hbegin
    · rw [(hpc' rfl).1] at hs
      obtain ⟨hvalue, hinput⟩ := hkept.insert x input hs hr
      refine ⟨fun hlive => ?_, hinput⟩
      rw [hg.vault_of_stage fun q approver row hpc hq => ?_]
      · exact hvalue (hg.live hlive)
      · -- a call with a stage has a row
        refine hfresh x input hs (hr ▸ used_of_stage hleased (x := l.id) ?_)
        rw [hpc, Pc.stage, if_pos hq]
        exact Option.some_ne_none _
    · exact absurd hr (hg.fresh x input hbegin)
  row _ hrow := requestKept_row hkept hleased' hg hrow
  calls _ _ _ _ hx hq := requestKept_calls hkept hg hx hq
  executed := by
    rintro ⟨i, hi⟩
    obtain ⟨events, hspec⟩ := step_spec hg.step
    rw [hspec.history] at hi
    rcases List.mem_append.mp hi with hnew | hold
    · obtain ⟨q, approver, row, result, hpc, hpc', -, hq⟩ := succeeded_of_event hspec hnew
      have hcall : CallKept s p l.id (.executing row) := hkept.calls l.id q approver _ hpc hq.symm
      exact hg.taken (hcall (hg.succeeds q approver row row result hpc hpc'))
    · exact hg.taken (hkept.executed ⟨i, hold⟩)
  gone hused hnone hlive := by
    rcases rows_step hg.step p.requestId.uuid with ⟨hsame, hgoes⟩ | ⟨id, reply, input, rfl, hpc, hinsert⟩
    · rw [hsame] at hused
      by_cases hrow : s.system.pending.getPending p.requestId.uuid = none
      · exact hg.taken (hkept.gone hused hrow (hg.live hlive))
      · obtain ⟨id, reply, rfl, hdel | ⟨q, approver, row, result, hpc, hq⟩⟩ := hgoes hrow hnone
        · exact hg.taken (hg.deletes id reply rfl hdel hlive)
        · exact hg.taken (hkept.calls id q approver _ hpc hq)
    · obtain ⟨-, hused', hrows⟩ := insert_cases hinsert
      rw [hrows] at hnone
      split at hnone
      next => cases hnone
      next hne =>
        rw [hused'] at hused
        exact hg.taken (hkept.gone ((List.mem_cons.mp hused).resolve_left hne) hnone (hg.live hlive))

/-- a change of the vault alone: what is lost is not live, or has neither row nor creation -/
theorem RequestKept.of_vault (hkept : RequestKept s p) (hsystem : t.system = s.system)
    (hthrown : t.thrown = s.thrown) (hclock : s.clock ≤ t.clock)
    (hsub : t.vault.get p.requestId.uuid = s.vault.get p.requestId.uuid ∨
      t.vault.get p.requestId.uuid = none)
    (hlost : Live t p → t.vault.get p.requestId.uuid = s.vault.get p.requestId.uuid ∨
      s.system.pending.getPending p.requestId.uuid = none ∧ ∀ x input,
        s.system.pc x = .create input .insert → input.requestId.uuid ≠ p.requestId.uuid) :
    RequestKept t p := by
  have htaken : s.vault.get p.requestId.uuid = none → t.vault.get p.requestId.uuid = none := by
    intro hnone
    rcases hsub with h | h
    · exact h.trans hnone
    · exact h
  have hlive : Live t p → Live s p := lt_of_le_of_lt hclock
  refine ⟨fun x input hx hr => ?_, fun row hrow => ?_, fun x q approver pc hx hq => ?_, fun h => ?_,
    fun hused hnone h => ?_⟩
  · rw [hsystem] at hx
    obtain ⟨hvalue, hinput⟩ := hkept.insert x input hx hr
    refine ⟨fun h => ?_, hinput⟩
    rcases hlost h with hsame | ⟨-, hnot⟩
    · rw [hsame]
      exact hvalue (hlive h)
    · exact absurd hr (hnot x input hx)
  · rw [hsystem] at hrow
    obtain ⟨hpublished, hvalue⟩ := hkept.row row hrow
    refine ⟨hpublished, fun h => ?_⟩
    rcases hlost h with hsame | ⟨hnone, -⟩
    · rw [hsame, hsystem]
      exact hvalue (hlive h)
    · rw [hrow] at hnone
      cases hnone
  · rw [hsystem] at hx
    have hcall := hkept.calls x q approver pc hx hq
    cases pc with
    | executing row => exact fun hfalse => htaken (hcall (by rw [← hthrown]; exact hfalse))
    | remove row result => exact htaken hcall
    | audit row => exact hcall
    | execute row => exact hcall
    | _ => trivial
  · rw [hsystem] at h
    exact htaken (hkept.executed h)
  · rw [hsystem] at hused hnone
    exact htaken (hkept.gone hused hnone (hlive h))

end

end ExecutorClient
