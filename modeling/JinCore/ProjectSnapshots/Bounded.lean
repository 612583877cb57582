import JinCore.Lib.Room
import JinCore.Lib.Runs
import JinCore.ProjectSnapshots.Service

/-!
# The bound of the snapshots, and their audit

* `BoundedAndAudited`  the rows are bounded, a call that throws has left them alone, and an operation
                       that has ended has its audit row;
* `Orderly`            the condition on a step;
* `Kept`               the invariant; `Kept.move` is a step of one call;
* `bounded_and_audited`, `overfull_and_unaudited`.
-/

namespace ProjectSnapshots
open JsString Common Audit Snapshots Room

/-! ## the property -/

def Phase.hasThrown : Phase → Bool
  | .threw _ | .failed => true
  | _ => false

def Phase.ended : Phase → Bool
  | .created _ | .got _ _ | .deleted | .threw _ | .failed => true
  | _ => false

section
variable (sha256 : JsString → JsString) (s : Snapshots)

/-- the audit has the row of an operation of this call -/
def Audited (c : CallId) : Change → Prop
  | .inserted row => ∃ requestId, (c, saveCall sha256 requestId row) ∈ s.audit
  | .deleted id => ∃ requestId given name, given.uuid = id ∧
      (c, deleteCall sha256 requestId given name) ∈ s.audit

structure BoundedAndAudited : Prop where
  bounded : s.rows.rows.length ≤ snapshotMaxCount
  unchanged : ∀ c, (s.calls c).hasThrown = true → ∀ change, (c, change) ∉ s.changes
  audited : ∀ c change, (c, change) ∈ s.changes → (s.calls c).ended = true → Audited sha256 s c change
  restored : ∀ c id row, s.calls c = .got id row →
    ∃ requestId, (c, restoreCall sha256 requestId id row.name) ∈ s.audit

end

/-- the call has found room and waits for its insert -/
def Waiting (s : Snapshots) (c : CallId) : Prop := ∃ input, s.calls c = .inserting input

/-- a count that finds room finds it beside those that wait, and what has changed the rows is answered
and audited -/
def Orderly (s : Snapshots) : Action → Prop
  | .read c true => ∀ input, s.calls c = .counting input → s.rows.rows.length < snapshotMaxCount →
      Fits (Waiting s) (s.rows.rows.length + 1) snapshotMaxCount
  | .insert _ _ _ fate => fate ≠ .applied
  | .deleteRow c fate => ∀ id existing, s.calls c = .deleting id existing → fate = .applied →
      s.rows.get id.uuid = none
  | .append c _ fate => (∀ row, s.calls c = .auditingSave row → fate = .ok) ∧
      ∀ id existing, s.calls c = .auditingDelete id existing → fate = .ok
  | _ => True

/-! ## the invariant -/

section
variable (sha256 : JsString → JsString) (s : Snapshots)

/-- the call has left the rows alone -/
def Unchanged (c : CallId) : Prop := ∀ change, (c, change) ∉ s.changes

def PhaseOk (c : CallId) : Phase → Prop
  | .auditingSave row => ∀ change, (c, change) ∈ s.changes → change = .inserted row
  | .auditingDelete id _ => ∀ change, (c, change) ∈ s.changes → change = .deleted id.uuid
  | .created _ | .deleted => ∀ change, (c, change) ∈ s.changes → Audited sha256 s c change
  | .got id row => Unchanged s c ∧ ∃ requestId, (c, restoreCall sha256 requestId id row.name) ∈ s.audit
  | _ => Unchanged s c

structure Kept : Prop where
  room : Fits (Waiting s) s.rows.rows.length snapshotMaxCount
  phases : ∀ c, PhaseOk sha256 s c (s.calls c)

end

section
variable {sha256 : JsString → JsString} {s s' : Snapshots} {c k : CallId} {phase : Phase}

theorem set_self (s : Snapshots) (c : CallId) (phase : Phase) : (s.set c phase).calls c = phase :=
  if_pos rfl

theorem set_other (s : Snapshots) (hk : k ≠ c) (phase : Phase) :
    (s.set c phase).calls k = s.calls k := if_neg hk

/-- a step of one call: the others have done nothing, and the audit is only added to -/
structure Moves (c : CallId) (s s' : Snapshots) : Prop where
  calls : ∀ k, k ≠ c → s'.calls k = s.calls k
  changes : ∀ k change, k ≠ c → (k, change) ∈ s'.changes → (k, change) ∈ s.changes
  audit : ∀ p ∈ s.audit, p ∈ s'.audit

theorem Audited.mono {change : Change} (haudit : ∀ p ∈ s.audit, p ∈ s'.audit)
    (h : Audited sha256 s c change) : Audited sha256 s' c change := by
  cases change with
  | inserted row =>
    obtain ⟨requestId, hmem⟩ := h
    exact ⟨requestId, haudit _ hmem⟩
  | deleted id =>
    obtain ⟨requestId, given, name, hid, hmem⟩ := h
    exact ⟨requestId, given, name, hid, haudit _ hmem⟩

/-- what is known of a call outlasts the steps of the others -/
theorem Moves.phaseOk (hm : Moves c s s') (hk : k ≠ c) (h : PhaseOk sha256 s k phase) :
    PhaseOk sha256 s' k phase := by
  have hback : ∀ change, (k, change) ∈ s'.changes → (k, change) ∈ s.changes :=
    fun change => hm.changes k change hk
  have hnone : Unchanged s k → Unchanged s' k := fun h change hmem => h change (hback change hmem)
  cases phase with
  | auditingSave row => exact fun change hmem => h change (hback change hmem)
  | auditingDelete id existing => exact fun change hmem => h change (hback change hmem)
  | created row => exact fun change hmem => (h change (hback change hmem)).mono hm.audit
  | deleted => exact fun change hmem => (h change (hback change hmem)).mono hm.audit
  | got id row =>
    obtain ⟨hunchanged, requestId, hmem⟩ := h
    exact ⟨hnone hunchanged, requestId, hm.audit _ hmem⟩
  | _ => exact hnone h

theorem Kept.move (hkept : Kept sha256 s) (hm : Moves c s s')
    (hroom : Fits (Waiting s') s'.rows.rows.length snapshotMaxCount)
    (hphase : PhaseOk sha256 s' c (s'.calls c)) : Kept sha256 s' where
  room := hroom
  phases k := by
    by_cases hk : k = c
    · rw [hk]
      exact hphase
    · rw [hm.calls k hk]
      exact hm.phaseOk hk (hkept.phases k)

theorem moves_set (s : Snapshots) (c : CallId) (phase : Phase) : Moves c s (s.set c phase) :=
  ⟨fun _ hk => set_other s hk phase, fun _ _ _ h => h, fun _ h => h⟩

/-- those that wait after a step of a call that does not wait then -/
theorem Moves.waiting (hm : Moves c s s') (hnot : ∀ input, s'.calls c ≠ .inserting input)
    (hk : Waiting s' k) : k ≠ c ∧ Waiting s k := by
  obtain ⟨input, hinput⟩ := hk
  have hkc : k ≠ c := by
    rintro rfl
    exact hnot input hinput
  exact ⟨hkc, input, (hm.calls k hkc).symm.trans hinput⟩

/-- a call that moves on and leaves the rows alone -/
theorem Kept.set (hkept : Kept sha256 s) (hnot : ∀ input, phase ≠ .inserting input)
    (hphase : PhaseOk sha256 s c phase) : Kept sha256 (s.set c phase) := by
  have hm := moves_set s c phase
  have hself := set_self s c phase
  refine hkept.move hm (hkept.room.mono (fun k hk => (hm.waiting ?_ hk).2) (le_refl _)) ?_
  · rw [hself]
    exact hnot
  · rw [hself]
    cases phase <;> exact hphase

theorem Kept.unchanged (hkept : Kept sha256 s) (hcall : s.calls c = phase)
    (hphase : PhaseOk sha256 s c phase → Unchanged s c) : Unchanged s c := by
  have hok := hkept.phases c
  rw [hcall] at hok
  exact hphase hok

/-! ### the statements -/

theorem kept_count {input : CreateSnapshotInput} (hkept : Kept sha256 s)
    (hcall : s.calls c = .counting input) (horderly : Orderly s (.read c true)) :
    Kept sha256 (s.set c (s.afterCount input)) := by
  have hunchanged := hkept.unchanged hcall fun h => h
  unfold afterCount
  split
  next => exact hkept.set (fun _ => Phase.noConfusion) hunchanged
  next hfull =>
    have hm := moves_set s c (.inserting input)
    refine hkept.move hm ?_ ?_
    · refine (horderly input hcall (Nat.lt_of_not_le hfull)).join (c := c) fun k hk => ?_
      by_cases hkc : k = c
      · exact Or.inl hkc
      · obtain ⟨other, hother⟩ := hk
        exact Or.inr ⟨other, (hm.calls k hkc).symm.trans hother⟩
    · rw [set_self]
      exact hunchanged

theorem kept_read {next : Phase} (hkept : Kept sha256 s) (h : s.afterRead (s.calls c) = some next)
    (horderly : Orderly s (.read c true)) : Kept sha256 (s.set c next) := by
  cases hcall : s.calls c with
  | counting input =>
    rw [hcall] at h
    cases h
    exact kept_count hkept hcall horderly
  | reading id =>
    have hunchanged := hkept.unchanged hcall fun h => h
    rw [hcall, afterRead] at h
    split at h <;> cases h
    · exact hkept.set (fun _ => Phase.noConfusion) hunchanged
    · exact hkept.set (fun _ => Phase.noConfusion) hunchanged
  | finding id =>
    have hunchanged := hkept.unchanged hcall fun h => h
    rw [hcall, afterRead] at h
    split at h <;> cases h
    · exact hkept.set (fun _ => Phase.noConfusion) hunchanged
    · exact hkept.set (fun _ => Phase.noConfusion) hunchanged
  | _ =>
    rw [hcall] at h
    cases h

/-- a call that stood before a read has left the rows alone -/
theorem unchanged_of_read {next : Phase} (hkept : Kept sha256 s)
    (h : s.afterRead (s.calls c) = some next) : Unchanged s c := by
  cases hcall : s.calls c with
  | counting input => exact hkept.unchanged hcall fun h => h
  | reading id => exact hkept.unchanged hcall fun h => h
  | finding id => exact hkept.unchanged hcall fun h => h
  | _ =>
    rw [hcall] at h
    cases h

theorem kept_insert {row : ProjectSnapshot} {input : CreateSnapshotInput} (hkept : Kept sha256 s)
    (hcall : s.calls c = .inserting input) (h : s.inserted c row (.auditingSave row) = some s') :
    Kept sha256 s' := by
  have hunchanged := hkept.unchanged hcall fun h => h
  obtain ⟨rows, hinsert, rfl⟩ := Option.map_eq_some_iff.mp h
  let t : Snapshots := { s with rows := rows }.change c (.inserted row)
  have hm : Moves c s (t.set c (.auditingSave row)) := by
    refine ⟨fun k hk => set_other t hk _, fun k change hk hmem => ?_, fun _ h => h⟩
    refine (List.mem_cons.mp hmem).resolve_left fun hpair => hk ?_
    exact (Prod.mk.inj hpair).1
  have hself : (t.set c (.auditingSave row)).calls c = .auditingSave row := set_self t c _
  refine hkept.move hm ?_ ?_
  · have hlength : rows.rows.length = s.rows.rows.length + 1 := by
      rw [Table.rows_insert hinsert, List.length_append, List.length_singleton]
    show Fits _ rows.rows.length _
    rw [hlength]
    refine hkept.room.take ⟨input, hcall⟩ fun k hk => hm.waiting (fun other => ?_) hk
    rw [hself]
    exact Phase.noConfusion
  · rw [hself]
    intro change hmem
    rcases List.mem_cons.mp hmem with hpair | hmem
    · exact (Prod.mk.inj hpair).2
    · exact absurd hmem (hunchanged change)

theorem length_erase_le (rows : Table ProjectSnapshot.id) (id : JsString) :
    (rows.erase id).rows.length ≤ rows.rows.length := List.length_filter_le _ _

theorem kept_delete {id : SnapshotId} {existing : ProjectSnapshot} {fate : Fate}
    (hkept : Kept sha256 s) (hcall : s.calls c = .deleting id existing)
    (horderly : Orderly s (.deleteRow c fate)) : Kept sha256 (s.onDelete c id existing fate) := by
  have hunchanged := hkept.unchanged hcall fun h => h
  have hstays : ∀ error, Kept sha256 (s.set c (.threw error)) := fun error =>
    hkept.set (fun _ => Phase.noConfusion) hunchanged
  have hfails : Kept sha256 (s.set c .failed) := hkept.set (fun _ => Phase.noConfusion) hunchanged
  unfold onDelete
  cases fate with
  | lost => exact hfails
  | applied =>
    rw [horderly id existing hcall rfl]
    exact hfails
  | ok =>
    cases s.rows.get id.uuid with
    | none => exact hstays _
    | some row =>
      let t : Snapshots := { s with rows := s.rows.erase id.uuid }.change c (.deleted id.uuid)
      have hm : Moves c s (t.set c (.auditingDelete id existing)) := by
        refine ⟨fun k hk => set_other t hk _, fun k change hk hmem => ?_, fun _ h => h⟩
        refine (List.mem_cons.mp hmem).resolve_left fun hpair => hk ?_
        exact (Prod.mk.inj hpair).1
      have hself : (t.set c (.auditingDelete id existing)).calls c = .auditingDelete id existing :=
        set_self t c _
      refine hkept.move hm ?_ ?_
      · refine hkept.room.mono (fun k hk => (hm.waiting (fun other => ?_) hk).2)
          (length_erase_le s.rows id.uuid)
        rw [hself]
        exact Phase.noConfusion
      · rw [hself]
        intro change hmem
        rcases List.mem_cons.mp hmem with hpair | hmem
        · exact (Prod.mk.inj hpair).2
        · exact absurd hmem (hunchanged change)

/-- what a call knows when its append has been answered -/
theorem appended {requestId : JsString} {call : AuditCall} {next : Phase} (hkept : Kept sha256 s)
    (h : appends sha256 requestId (s.calls c) = some (call, next)) :
    (∀ input, next ≠ .inserting input) ∧
      ∀ t : Snapshots, t.changes = s.changes → (c, call) ∈ t.audit → PhaseOk sha256 t c next := by
  have hok := hkept.phases c
  cases hcall : s.calls c with
  | auditingSave row =>
    rw [hcall] at h hok
    cases h
    refine ⟨fun _ => Phase.noConfusion, fun t hchanges hmem change hchange => ?_⟩
    rw [hchanges] at hchange
    rw [hok change hchange]
    exact ⟨requestId, hmem⟩
  | auditingDelete id existing =>
    rw [hcall] at h hok
    cases h
    refine ⟨fun _ => Phase.noConfusion, fun t hchanges hmem change hchange => ?_⟩
    rw [hchanges] at hchange
    rw [hok change hchange]
    exact ⟨requestId, id, existing.name, rfl, hmem⟩
  | auditingRestore id row =>
    rw [hcall] at h hok
    cases h
    refine ⟨fun _ => Phase.noConfusion, fun t hchanges hmem => ⟨fun change hchange => ?_, requestId, hmem⟩⟩
    rw [hchanges] at hchange
    exact hok change hchange
  | _ =>
    rw [hcall] at h
    cases h

theorem kept_append {requestId : JsString} {call : AuditCall} {next : Phase} {fate : Fate}
    (hkept : Kept sha256 s) (h : appends sha256 requestId (s.calls c) = some (call, next))
    (horderly : Orderly s (.append c requestId fate)) : Kept sha256 (s.onAppend c call next fate) := by
  obtain ⟨hnext, hok⟩ := appended hkept h
  -- an append that is not answered is that of a call that only reads
  have hreads : fate ≠ .ok → Unchanged s c := by
    intro hfate
    cases hcall : s.calls c with
    | auditingSave row => exact absurd (horderly.1 row hcall) hfate
    | auditingDelete id existing => exact absurd (horderly.2 id existing hcall) hfate
    | auditingRestore id row => exact hkept.unchanged hcall fun h => h
    | _ =>
      rw [hcall] at h
      cases h
  let t : Snapshots := { s with audit := (c, call) :: s.audit }
  have hm : ∀ phase, Moves c s (t.set c phase) := fun phase =>
    ⟨fun k hk => set_other t hk phase, fun _ _ _ h => h, fun _ h => List.mem_cons_of_mem _ h⟩
  have hself : ∀ phase, (t.set c phase).calls c = phase := fun phase => set_self t c phase
  cases fate with
  | lost => exact hkept.set (fun _ => Phase.noConfusion) (hreads Fate.noConfusion)
  | ok =>
    refine hkept.move (hm next)
      (hkept.room.mono (fun k hk => ((hm next).waiting ?_ hk).2) (le_refl _)) ?_
    · rw [hself]
      exact hnext
    · show PhaseOk sha256 (t.set c next) c ((t.set c next).calls c)
      rw [hself]
      exact hok (t.set c next) rfl List.mem_cons_self
  | applied =>
    refine hkept.move (hm .failed)
      (hkept.room.mono (fun k hk => ((hm .failed).waiting (fun input => ?_) hk).2) (le_refl _)) ?_
    · rw [hself]
      exact Phase.noConfusion
    · show PhaseOk sha256 (t.set c .failed) c ((t.set c .failed).calls c)
      rw [hself]
      exact hreads Fate.noConfusion

theorem kept_step {a : Action} (hkept : Kept sha256 s) (horderly : Orderly s a)
    (hstep : Snapshots.step sha256 s a = some s') : Kept sha256 s' := by
  cases a with
  | create c parsed =>
    rw [Snapshots.step] at hstep
    split at hstep
    next hcall =>
      cases hstep
      have hunchanged := hkept.unchanged hcall fun h => h
      cases parsed with
      | error issues => exact hkept.set (fun _ => Phase.noConfusion) hunchanged
      | ok input => exact hkept.set (fun _ => Phase.noConfusion) hunchanged
    next => cases hstep
  | get c id =>
    rw [Snapshots.step] at hstep
    split at hstep
    next hcall =>
      cases hstep
      exact hkept.set (fun _ => Phase.noConfusion) (hkept.unchanged hcall fun h => h)
    next => cases hstep
  | delete c id =>
    rw [Snapshots.step] at hstep
    split at hstep
    next hcall =>
      cases hstep
      exact hkept.set (fun _ => Phase.noConfusion) (hkept.unchanged hcall fun h => h)
    next => cases hstep
  | read c heard =>
    obtain ⟨next, hnext, rfl⟩ := Option.map_eq_some_iff.mp hstep
    cases heard with
    | true => exact kept_read hkept hnext horderly
    | false => exact hkept.set (fun _ => Phase.noConfusion) (unchanged_of_read hkept hnext)
  | insert c id now fate =>
    rw [Snapshots.step] at hstep
    split at hstep
    next input hcall =>
      cases fate with
      | lost =>
        cases hstep
        exact hkept.set (fun _ => Phase.noConfusion) (hkept.unchanged hcall fun h => h)
      | ok => exact kept_insert hkept hcall hstep
      | applied => exact absurd rfl horderly
    next => cases hstep
  | deleteRow c fate =>
    rw [Snapshots.step] at hstep
    split at hstep
    next id existing hcall =>
      cases hstep
      exact kept_delete hkept hcall horderly
    next => cases hstep
  | append c requestId fate =>
    obtain ⟨⟨call, next⟩, hnext, rfl⟩ := Option.map_eq_some_iff.mp hstep
    exact kept_append hkept hnext horderly

theorem kept_empty : Kept sha256 empty where
  room := fits_of_none (fun _ hc => Phase.noConfusion hc.choose_spec) (Nat.zero_le _)
  phases _ _ := List.not_mem_nil

theorem Kept.boundedAndAudited (hkept : Kept sha256 s) : BoundedAndAudited sha256 s where
  bounded := hkept.room.le
  unchanged c hthrown := by
    have hok := hkept.phases c
    cases hcall : s.calls c with
    | threw error =>
      rw [hcall] at hok
      exact hok
    | failed =>
      rw [hcall] at hok
      exact hok
    | _ =>
      rw [hcall] at hthrown
      cases hthrown
  audited c change hmem hended := by
    have hok := hkept.phases c
    cases hcall : s.calls c with
    | created row =>
      rw [hcall] at hok
      exact hok change hmem
    | deleted =>
      rw [hcall] at hok
      exact hok change hmem
    | got id row =>
      rw [hcall] at hok
      exact absurd hmem (hok.1 change)
    | threw error =>
      rw [hcall] at hok
      exact absurd hmem (hok change)
    | failed =>
      rw [hcall] at hok
      exact absurd hmem (hok change)
    | _ =>
      rw [hcall] at hended
      cases hended
  restored c id row hcall := by
    have hok := hkept.phases c
    rw [hcall] at hok
    exact hok.2

/-- the rows change only as the calls have recorded -/
theorem rows_of_changes {a : Action} (hstep : Snapshots.step sha256 s a = some s')
    (hchanges : s'.changes = s.changes) : s'.rows = s.rows := by
  have hnot : ∀ p : CallId × Change, p :: s.changes ≠ s.changes := fun p h =>
    absurd (congrArg List.length h) (Nat.succ_ne_self _)
  cases a with
  | create c parsed =>
    rw [Snapshots.step] at hstep
    split at hstep <;> cases hstep
    cases parsed <;> rfl
  | get c id | delete c id =>
    rw [Snapshots.step] at hstep
    split at hstep <;> cases hstep
    rfl
  | read c heard =>
    obtain ⟨next, -, rfl⟩ := Option.map_eq_some_iff.mp hstep
    rfl
  | insert c id now fate =>
    rw [Snapshots.step] at hstep
    split at hstep
    next input hcall =>
      cases fate with
      | lost =>
        cases hstep
        rfl
      | ok | applied =>
        obtain ⟨rows, -, rfl⟩ := Option.map_eq_some_iff.mp hstep
        exact absurd hchanges (hnot _)
    next => cases hstep
  | deleteRow c fate =>
    rw [Snapshots.step] at hstep
    split at hstep
    next id existing hcall =>
      cases hstep
      unfold onDelete at hchanges ⊢
      cases fate <;> cases hrow : s.rows.get id.uuid <;> rw [hrow] at hchanges <;>
        first | rfl | exact absurd hchanges (hnot _)
    next => cases hstep
  | append c requestId fate =>
    obtain ⟨⟨call, next⟩, -, rfl⟩ := Option.map_eq_some_iff.mp hstep
    cases fate <;> rfl

end

/-! ## runs -/

theorem bounded_and_audited (sha256 : JsString → JsString) (as : List Action) (s : Snapshots)
    (horderly : Runs.Guarded (Snapshots.step sha256) Orderly empty as)
    (hrun : Runs.run (Snapshots.step sha256) empty as = some s) : BoundedAndAudited sha256 s :=
  (Runs.run_inv_guarded (fun _ _ _ hs ha hstep => kept_step hs ha hstep) as empty s
    kept_empty horderly hrun).boundedAndAudited

/-- `x`, one file -/
def sampleInput : CreateSnapshotInput := ⟨lit "x", none, [(lit "a", lit "b")], none⟩

theorem cast_sampleId : uuidColumn (lit "aaaaaaaa-aaaa-4aaa-8aaa-aaaaaaaaaaaa") =
    some (lit "aaaaaaaa-aaaa-4aaa-8aaa-aaaaaaaaaaaa") := by decide

def sampleId : SnapshotId where
  text := lit "aaaaaaaa-aaaa-4aaa-8aaa-aaaaaaaaaaaa"
  uuid := lit "aaaaaaaa-aaaa-4aaa-8aaa-aaaaaaaaaaaa"
  cast := cast_sampleId

/-- a call that is alone finds room -/
def firstSave : List Action := [.create 1 (.ok sampleInput), .read 1 true]

/-- its snapshot is saved, restored and deleted -/
def oneSnapshot : List Action :=
  [.insert 1 sampleId.uuid 0 .ok, .append 1 (lit "r1") .ok,
    .get 2 sampleId, .read 2 true, .append 2 (lit "r2") .ok,
    .delete 3 sampleId, .read 3 true, .deleteRow 3 .ok, .append 3 (lit "r3") .ok]

/-- a check of the condition that no count passes -/
def check (s : Snapshots) : Action → Bool
  | .read c true =>
    match s.calls c with
    | .counting _ => false
    | _ => true
  | .insert _ _ _ fate | .deleteRow _ fate => decide (fate ≠ .applied)
  | .append _ _ fate => decide (fate = .ok)
  | _ => true

theorem orderly_of_check (s : Snapshots) (a : Action) (h : check s a = true) : Orderly s a := by
  cases a with
  | read c heard =>
    cases heard with
    | true =>
      intro input hcall
      rw [check, hcall] at h
      cases h
    | false => trivial
  | insert c id now fate =>
    have hfate : fate ≠ .applied := of_decide_eq_true h
    exact hfate
  | deleteRow c fate => exact fun _ _ _ hfate => absurd hfate (of_decide_eq_true h)
  | append c requestId fate => exact ⟨fun _ _ => of_decide_eq_true h, fun _ _ _ => of_decide_eq_true h⟩
  | _ => trivial

theorem orderly_firstSave : Runs.Guarded (Snapshots.step id) Orderly empty firstSave := by
  refine ⟨trivial, fun t ht => ⟨?_, fun _ _ => trivial⟩⟩
  cases ht
  intro input _ _
  refine fits_of_none ?_ (by decide : 0 + 1 ≤ snapshotMaxCount)
  rintro c ⟨other, hother⟩
  by_cases hc : c = 1
  · rw [hc] at hother
    cases hother
  · exact Phase.noConfusion ((set_other empty hc _).symm.trans hother)

theorem bounded_and_audited_oneSnapshot :
    ∃ s, Runs.run (Snapshots.step id) empty (firstSave ++ oneSnapshot) = some s ∧
      s.calls 3 = .deleted ∧ BoundedAndAudited id s := by
  have hrun : (Runs.run (Snapshots.step id) empty (firstSave ++ oneSnapshot)).map (fun s => s.calls 3)
      = some .deleted := by decide
  have hcheck : (Runs.run (Snapshots.step id) empty firstSave).all
      (fun s => Runs.checkAll (Snapshots.step id) check s oneSnapshot) = true := by decide
  obtain ⟨s, hs, hcall⟩ := Option.map_eq_some_iff.mp hrun
  refine ⟨s, hs, hcall, bounded_and_audited id _ s ?_ hs⟩
  refine (Runs.guarded_append _ _ _).mpr ⟨orderly_firstSave, fun t ht => ?_⟩
  rw [ht, Option.all_some] at hcheck
  exact Runs.guarded_of_checkAll orderly_of_check oneSnapshot t hcheck

/-- calls that all count before any of them inserts -/
def crowd (n : Nat) : List Action :=
  (List.range n).map (fun c => .create c (.ok sampleInput))
    ++ ((List.range n).map (fun c => .read c true)
      ++ (List.range n).map fun c => .insert c ⟨[UInt16.ofNat c]⟩ 0 .ok)

/-- a snapshot is saved, and its append fails -/
def failedAudit : List Action :=
  firstSave ++ [.insert 1 sampleId.uuid 0 .ok, .append 1 (lit "r1") .lost]

theorem overfull_and_unaudited :
    (∃ s, Runs.run (Snapshots.step id) empty (crowd 101) = some s ∧ ¬ BoundedAndAudited id s) ∧
      ∃ s, Runs.run (Snapshots.step id) empty failedAudit = some s ∧ ¬ BoundedAndAudited id s := by
  constructor
  · have hrun : (Runs.run (Snapshots.step id) empty (crowd 101)).map (fun s => s.rows.rows.length)
        = some 101 := by decide +kernel
    obtain ⟨s, hs, hlength⟩ := Option.map_eq_some_iff.mp hrun
    refine ⟨s, hs, fun hheld => ?_⟩
    have hbounded := hheld.bounded
    rw [hlength] at hbounded
    exact absurd hbounded (by decide)
  · have hrun : (Runs.run (Snapshots.step id) empty failedAudit).map (fun s => (s.calls 1, s.changes))
        = some (.failed, [(1, .inserted (newRow sampleInput sampleId.uuid 0))]) := by decide
    obtain ⟨s, hs, hpair⟩ := Option.map_eq_some_iff.mp hrun
    obtain ⟨hcall, hchanges⟩ := Prod.mk.inj hpair
    refine ⟨s, hs, fun hheld => ?_⟩
    refine hheld.unchanged 1 (by rw [hcall]; rfl) (.inserted (newRow sampleInput sampleId.uuid 0)) ?_
    rw [hchanges]
    exact List.mem_cons_self

end ProjectSnapshots
