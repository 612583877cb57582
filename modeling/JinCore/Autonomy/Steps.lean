import JinCore.Autonomy.Service

/-!
# What a label does to the autonomy mode

* `modeAt`, `getState_some_mode`   the mode in force at an instant;
* `RowMove`, `go_move`     a call leaves the row, counts in it, or changes its mode;
* `Background`             the labels of the tool calls and of the expiry;
* `Decays`, `quiet_step`   what such a label may do to the row: it keeps the mode or ends it;
* `SameBut`                states that differ in one call only, and their runs.
-/

namespace Autonomy
open JsString Common Tools Hitl Runs

def AutonomyLabel.id : AutonomyLabel → CallId
  | .begin id _ _ | .go id _ => id

def AutonomyLabel.now : AutonomyLabel → Int
  | .begin _ _ now => now
  | .go _ reply => reply.now

/-- the calls that change the mode to `supervised` only -/
def Op.background : Op → Bool
  | .relax _ _ | .expireIfNeeded => true
  | _ => false

def Pc.background : Pc → Bool
  | .request _ _ | .approved _ _ => false
  | _ => true

/-- a label of the call `id`, or of a tool call or an expiry that runs in `s₀` or begins later -/
def Background (s₀ : AutonomySystem) (id : CallId) : AutonomyLabel → Prop
  | .begin _ op _ => op.background = true
  | .go i _ => i = id ∨ (s₀.pc i).background = true

/-- the mode in force at an instant -/
def modeAt (s : AutonomySystem) (now : Int) : AutonomyMode := (getState s.row now).mode

/-- a row that has become `supervised`, or has kept its mode and its expiry -/
def Decays (row row' : Option AutonomyRow) : Prop :=
  ∀ r', row' = some r' → ∃ r, row = some r ∧
    (r'.mode = .supervised ∨ (r'.mode = r.mode ∧ r'.expiresAt = r.expiresAt))

section
variable {service : AutonomyService} {s s' t : AutonomySystem} {id : CallId} {reply : Reply}
  {row : Option AutonomyRow} {l : AutonomyLabel}

/-! ## the mode in force -/

theorem getState_some_mode (r : AutonomyRow) (now : Int) :
    (getState (some r) now).mode = if r.isExpired now then .supervised else r.mode := by
  obtain ⟨mode, expiresAt, setBy, approvalRequestId, changedAt, relaxedCount, window⟩ := r
  by_cases hm : mode = .supervised
  · simp only [getState, hm, ite_self]
    rfl
  · simp only [getState, if_neg hm, AutonomyRow.isExpired]
    cases expiresAt with
    | none => rfl
    | some expiresAt =>
      by_cases he : expiresAt ≤ now
      · simp only [he, decide_true, if_true]
        rfl
      · simp only [he, decide_false, if_false]
        rfl

/-- the row is `supervised`, or expired at the instant -/
def Spent (u : Int) (row : Option AutonomyRow) : Prop :=
  ∀ r, row = some r → r.mode = .supervised ∨ r.isExpired u = true

theorem isExpired_mono {r : AutonomyRow} {u t : Int} (hu : u ≤ t) (h : r.isExpired u = true) :
    r.isExpired t = true := by
  unfold AutonomyRow.isExpired at h ⊢
  cases hx : r.expiresAt with
  | none => rfl
  | some expiresAt =>
    rw [hx] at h
    simp only [decide_eq_true_eq] at h ⊢
    omega

theorem modeAt_of_spent {u : Int} (hs : Spent u s.row) {t : Int} (hu : u ≤ t) :
    modeAt s t = .supervised := by
  unfold modeAt
  cases hr : s.row with
  | none => rfl
  | some r =>
    rw [getState_some_mode]
    rcases hs r hr with h | h
    · rw [h, ite_self]
    · rw [isExpired_mono hu h, if_pos rfl]

theorem Spent.decays {u : Int} {row' : Option AutonomyRow} (hs : Spent u row)
    (hd : Decays row row') : Spent u row' := by
  intro r' hr'
  obtain ⟨r, hr, hm | ⟨hm, he⟩⟩ := hd r' hr'
  · exact Or.inl hm
  · rcases hs r hr with h | h
    · exact Or.inl (hm.trans h)
    · right
      unfold AutonomyRow.isExpired at h ⊢
      rw [he]
      exact h

theorem Decays.refl (row : Option AutonomyRow) : Decays row row :=
  fun r hr => ⟨r, hr, Or.inr ⟨rfl, rfl⟩⟩

/-! ## what a label does to the row -/

/-- a call leaves the row, counts in it, or changes its mode with an input that meets `P` -/
inductive RowMove (P : WriteInput → Prop) (row : Option AutonomyRow) : Option AutonomyRow → Prop
  | same : RowMove P row row
  | bumped (now : Int) : RowMove P row (row.map (AutonomyRow.bump now))
  | changed (input : WriteInput) (now : Int) (h : P input) : RowMove P row (row.map (input.setMode now))

theorem RowMove.imp {P Q : WriteInput → Prop} {row' : Option AutonomyRow}
    (h : RowMove P row row') (hPQ : ∀ input, P input → Q input) : RowMove Q row row' := by
  cases h with
  | same => exact .same
  | bumped now => exact .bumped now
  | changed input now hP => exact .changed input now (hPQ input hP)

theorem RowMove.isSome {P : WriteInput → Prop} {row' : Option AutonomyRow}
    (h : RowMove P row row') : row'.isSome = row.isSome := by
  cases h <;> simp

theorem RowMove.decays {row' : Option AutonomyRow}
    (h : RowMove (fun input => input.mode = .supervised) row row') : Decays row row' := by
  intro r' hr'
  cases h with
  | same => exact ⟨r', hr', Or.inr ⟨rfl, rfl⟩⟩
  | bumped now =>
    obtain ⟨r, hr, rfl⟩ := Option.map_eq_some_iff.mp hr'
    refine ⟨r, hr, Or.inr ?_⟩
    unfold AutonomyRow.bump
    split <;> exact ⟨rfl, rfl⟩
  | changed input now hm =>
    obtain ⟨r, hr, rfl⟩ := Option.map_eq_some_iff.mp hr'
    exact ⟨r, hr, Or.inl hm⟩

theorem writeState_move {input : WriteInput} {result : Option Int → Result} {pc : WritePc} :
    RowMove (· = input) row (writeState service row id input result reply pc).row := by
  cases pc with
  | readPrevious now =>
    simp only [writeState]
    split <;> exact .same
  | update now previous =>
    simp only [writeState]
    split
    · exact .changed input now rfl
    · exact .same
  | _ => exact .same

theorem relax_move {decision : HitlDecision} {tool : Option ToolDefinition} {pc : RelaxPc} :
    RowMove (· = circuitBreaker) row (relax service row id decision tool reply pc).row := by
  cases pc with
  | getState now =>
    simp only [relax]
    split
    · split <;> exact .same
    · exact .same
  | bump relaxed =>
    simp only [relax]
    split
    · exact .same
    · exact .bumped reply.now
    · split <;> exact .bumped reply.now
  | write pc => exact writeState_move

theorem expire_move {now : Int} {pc : ExpirePc} :
    RowMove (· = expiry) row (expireIfNeeded service row id now reply pc).row := by
  cases pc with
  | select =>
    simp only [expireIfNeeded]
    split
    · split
      · exact .same
      · split
        · exact .same
        · split <;> exact .same
    · exact .same
  | write pc => exact writeState_move

theorem request_move {input : ModeChangeInput} {pc : RequestPc} :
    RowMove (fun w => w.mode = input.mode) row (requestModeChange service row id input reply pc).row := by
  cases pc with
  | getState now =>
    simp only [requestModeChange]
    split
    · split <;> exact .same
    · exact .same
  | write hours pc => exact writeState_move.imp fun w hw => hw ▸ rfl
  | createPending hours =>
    simp only [requestModeChange]
    split <;> exact .same

theorem go_move : RowMove (fun _ => True) s.row (s.go service id reply).row := by
  unfold AutonomySystem.go
  split
  next => exact .same
  next => exact .same
  next => exact relax_move.imp fun _ _ => trivial
  next => exact request_move.imp fun _ _ => trivial
  next => exact writeState_move.imp fun _ _ => trivial
  next => exact expire_move.imp fun _ _ => trivial

theorem go_decays (hb : (s.pc id).background = true) : Decays s.row (s.go service id reply).row := by
  apply RowMove.decays
  unfold AutonomySystem.go
  split
  next => exact .same
  next => exact .same
  next => exact relax_move.imp fun w hw => hw ▸ rfl
  next input pc hpc =>
    rw [hpc] at hb
    cases hb
  next payload pc hpc =>
    rw [hpc] at hb
    cases hb
  next => exact expire_move.imp fun w hw => hw ▸ rfl

/-! ## frames -/

theorem apply_pc_self {π : Type} (f : π → Pc) (m : Move π) :
    (s.apply id f m).pc id = m.next.toPc f := if_pos rfl

theorem apply_pc_other {π : Type} (f : π → Pc) (m : Move π) {i : CallId} (hi : i ≠ id) :
    (s.apply id f m).pc i = s.pc i := if_neg hi

theorem go_pc_other {i : CallId} (hi : i ≠ id) : (s.go service id reply).pc i = s.pc i := by
  unfold AutonomySystem.go
  split <;> first | rfl | exact apply_pc_other _ _ hi

/-- a call that has not ended has gone on -/
theorem goto_of_toPc {π : Type} {f : π → Pc} {next : Next π} {pc : Pc} (h : next.toPc f = pc)
    (hd : ∀ outcome, pc ≠ .done outcome) : ∃ x, next = .goto x ∧ f x = pc := by
  cases next with
  | goto x => exact ⟨x, rfl, h⟩
  | finish outcome => exact absurd h.symm (hd outcome)

/-- a call that stands in `relax` stood there before -/
theorem relax_of_go {decision : HitlDecision} {tool : Option ToolDefinition} {pc' : RelaxPc}
    (h : (s.go service id reply).pc id = .relax decision tool pc') :
    ∃ pc, s.pc id = .relax decision tool pc ∧
      (relax service s.row id decision tool reply pc).next = .goto pc' := by
  unfold AutonomySystem.go at h
  cases hpc : s.pc id with
  | relax decision' tool' pc =>
    simp only [hpc, apply_pc_self] at h
    obtain ⟨_, hn, hf⟩ := goto_of_toPc h fun _ => Pc.noConfusion
    cases hf
    exact ⟨pc, rfl, hn⟩
  | idle =>
    simp only [hpc] at h
    cases h
  | done outcome =>
    simp only [hpc] at h
    cases h
  | request input pc =>
    simp only [hpc, apply_pc_self] at h
    obtain ⟨_, _, hf⟩ := goto_of_toPc h fun _ => Pc.noConfusion
    cases hf
  | approved payload pc =>
    simp only [hpc, apply_pc_self] at h
    obtain ⟨_, _, hf⟩ := goto_of_toPc h fun _ => Pc.noConfusion
    cases hf
  | expire now pc =>
    simp only [hpc, apply_pc_self] at h
    obtain ⟨_, _, hf⟩ := goto_of_toPc h fun _ => Pc.noConfusion
    cases hf

/-- a call that stands in a request stood there before -/
theorem request_of_go {input : ModeChangeInput} {pc' : RequestPc}
    (h : (s.go service id reply).pc id = .request input pc') :
    ∃ pc, s.pc id = .request input pc ∧
      (requestModeChange service s.row id input reply pc).next = .goto pc' ∧
      (s.go service id reply).row = (requestModeChange service s.row id input reply pc).row := by
  unfold AutonomySystem.go at h ⊢
  cases hpc : s.pc id with
  | request input' pc =>
    simp only [hpc, apply_pc_self] at h ⊢
    obtain ⟨_, hn, hf⟩ := goto_of_toPc h fun _ => Pc.noConfusion
    cases hf
    exact ⟨pc, rfl, hn, rfl⟩
  | idle =>
    simp only [hpc] at h
    cases h
  | done outcome =>
    simp only [hpc] at h
    cases h
  | relax decision tool pc =>
    simp only [hpc, apply_pc_self] at h
    obtain ⟨_, _, hf⟩ := goto_of_toPc h fun _ => Pc.noConfusion
    cases hf
  | approved payload pc =>
    simp only [hpc, apply_pc_self] at h
    obtain ⟨_, _, hf⟩ := goto_of_toPc h fun _ => Pc.noConfusion
    cases hf
  | expire now pc =>
    simp only [hpc, apply_pc_self] at h
    obtain ⟨_, _, hf⟩ := goto_of_toPc h fun _ => Pc.noConfusion
    cases hf

theorem toPc_background {π : Type} {f : π → Pc} (hf : ∀ pc, (f pc).background = true)
    (next : Next π) : (next.toPc f).background = true := by
  cases next with
  | goto pc => exact hf pc
  | finish outcome => rfl

theorem go_background (hb : (s.pc id).background = true) :
    ((s.go service id reply).pc id).background = true := by
  unfold AutonomySystem.go
  split
  next => exact hb
  next => exact hb
  next =>
    rw [apply_pc_self]
    exact toPc_background (fun _ => rfl) _
  next input pc hpc =>
    rw [hpc] at hb
    cases hb
  next payload pc hpc =>
    rw [hpc] at hb
    cases hb
  next =>
    rw [apply_pc_self]
    exact toPc_background (fun _ => rfl) _

theorem step_begin {i : CallId} {op : Op} {now : Int}
    (h : step service s (.begin i op now) = some t) :
    s.pc i = .idle ∧ t = s.set i (.start now op) := by
  simp only [step] at h
  split at h
  next hi => exact ⟨hi, (Option.some.inj h).symm⟩
  next => cases h

theorem step_pc_other {i : CallId} (h : step service s l = some t) (hi : i ≠ l.id) :
    t.pc i = s.pc i := by
  cases l with
  | begin j op now =>
    obtain ⟨_, rfl⟩ := step_begin h
    exact if_neg hi
  | go j reply =>
    cases h
    exact go_pc_other hi

/-- the calls that only lower the mode go on lowering it -/
def Quiet (s₀ : AutonomySystem) (id : CallId) (s : AutonomySystem) : Prop :=
  ∀ i, i ≠ id → (s₀.pc i).background = true → (s.pc i).background = true

theorem quiet_step {s₀ : AutonomySystem} (hq : Quiet s₀ id s) (hl : Background s₀ id l)
    (h : step service s l = some t) : Quiet s₀ id t ∧ (l.id ≠ id → Decays s.row t.row) := by
  cases l with
  | begin i op now =>
    obtain ⟨_, rfl⟩ := step_begin h
    refine ⟨fun j hj hb => ?_, fun _ => .refl _⟩
    by_cases hji : j = i
    · rw [show (s.set i (.start now op)).pc j = .start now op from if_pos hji]
      cases op with
      | requestModeChange input => cases hl
      | applyApprovedChange payload => cases hl
      | _ => rfl
    · rw [show (s.set i (.start now op)).pc j = s.pc j from if_neg hji]
      exact hq j hj hb
  | go i reply =>
    cases h
    constructor
    · intro j hj hb
      by_cases hji : j = i
      · rw [hji] at hj hb ⊢
        exact go_background (hq i hj hb)
      · rw [go_pc_other hji]
        exact hq j hj hb
    · intro hi
      exact go_decays (hq i hi (hl.resolve_left hi))

/-! ## the same run without the labels of one call -/

/-- the states differ at most in where one call stands and in what has been told -/
structure SameBut (id : CallId) (s s' : AutonomySystem) : Prop where
  row : s'.row = s.row
  pc : ∀ i, i ≠ id → s'.pc i = s.pc i

theorem SameBut.set {i : CallId} {pc : Pc} (hs : SameBut id s s') :
    SameBut id (s.set i pc) (s'.set i pc) := by
  refine ⟨hs.row, fun j hj => ?_⟩
  show (if j = i then pc else s'.pc j) = if j = i then pc else s.pc j
  rw [hs.pc j hj]

theorem SameBut.apply {π : Type} {i : CallId} (hs : SameBut id s s') (f : π → Pc) (m : Move π) :
    SameBut id (s.apply i f m) (s'.apply i f m) := by
  refine ⟨rfl, fun j hj => ?_⟩
  show (if j = i then m.next.toPc f else s'.pc j) = if j = i then m.next.toPc f else s.pc j
  rw [hs.pc j hj]

theorem SameBut.go {i : CallId} (hs : SameBut id s s') (hi : i ≠ id) :
    SameBut id (s.go service i reply) (s'.go service i reply) := by
  unfold AutonomySystem.go
  rw [hs.pc i hi, hs.row]
  cases s.pc i with
  | idle => exact hs
  | done outcome => exact hs
  | _ => exact hs.apply _ _

/-- a label of another call is taken in both -/
theorem SameBut.step (hs : SameBut id s s') (hl : l.id ≠ id) (h : step service s l = some t) :
    ∃ t', Autonomy.step service s' l = some t' ∧ SameBut id t t' := by
  cases l with
  | begin i op now =>
    obtain ⟨hi, rfl⟩ := step_begin h
    refine ⟨s'.set i (.start now op), ?_, hs.set⟩
    simp only [Autonomy.step, (hs.pc i hl).trans hi]
  | go i reply =>
    cases h
    exact ⟨_, rfl, hs.go hl⟩

theorem SameBut.run {ls : List AutonomyLabel} (hls : ∀ l ∈ ls, l.id ≠ id) :
    ∀ {s s' t : AutonomySystem}, SameBut id s s' → Runs.run (Autonomy.step service) s ls = some t →
      ∃ t', Runs.run (Autonomy.step service) s' ls = some t' ∧ SameBut id t t' := by
  induction ls with
  | nil =>
    intro s s' t hs h
    cases h
    exact ⟨s', rfl, hs⟩
  | cons l ls ih =>
    intro s s' t hs h
    obtain ⟨u, hu, ht⟩ := run_cons_some.mp h
    obtain ⟨u', hu', hs'⟩ := hs.step (hls l List.mem_cons_self) hu
    obtain ⟨t', ht', hst⟩ := ih (fun l hl => hls l (List.mem_cons_of_mem _ hl)) hs' ht
    exact ⟨t', run_cons_some.mpr ⟨u', hu', ht'⟩, hst⟩

end

end Autonomy
