import JinCore.Lib.Runs
import JinCore.Relay.Store

/-!
# One answer to a question

A press looks for an answer, and inserts its own if there is none; these are two statements.

* `OneAnswer`        presses insert one answer, and the others tell the owner what is stored;
* `Alone`            no answer is found only where no other press is about to insert one;
* `PhaseOk`, `Kept`  what a handler knows of the rows; `kept_step`;
* `one_answer`, `two_answers`.
-/

namespace Relay
open JsString Bridge

/-- the row was inserted by a press -/
def ByPress (s : Bridge) (row : RelayMessage) : Prop :=
  row ∈ s.messages.rows ∧ ∃ h, (h, row.id) ∈ s.pressed

def Inserted (s : Bridge) (h : HandlerId) (questionId : MessageId) : Prop :=
  ∃ row ∈ s.messages.rows, (h, row.id) ∈ s.pressed ∧ row.answerTo = some questionId

structure OneAnswer (s : Bridge) (questionId : MessageId) : Prop where
  once : ∀ row row', ByPress s row → ByPress s row' → row.answerTo = some questionId →
    row'.answerTo = some questionId → row = row'
  told : ∀ h notice, s.buttons h = some questionId → s.handlers h = .returned notice →
    Inserted s h questionId ∨ ∃ row ∈ s.messages.rows, Answers row questionId ∧
      notice.text = lit "Ya respondiste: " ++ row.body

/-- no answer is found only where no other press is between its search and its insert -/
def Alone (s : Bridge) : Action → Prop
  | .findAnswer h none => ∀ questionId chosen, s.handlers h = .findingAnswer questionId chosen →
      ∀ k chosen', s.handlers k ≠ .inserting questionId chosen'
  | _ => True

/-! ## the invariant -/

section
variable (s : Bridge)

def Told (h : HandlerId) (questionId : MessageId) (notice : Notice) : Prop :=
  Inserted s h questionId ∨
    ∃ row ∈ s.messages.rows, Answers row questionId ∧ notice = .already row.body

/-- what the handler of a button of the question knows -/
def PhaseOk (h : HandlerId) (questionId : MessageId) : Phase → Prop
  | .findingOutbound callback =>
    callback.questionId = questionId ∧ s.optionAt callback ≠ none
  | .findingAnswer asked _ | .inserting asked _ => asked = questionId
  | .answering notice | .returned notice => Told s h questionId notice
  | .idle => False
  | .threw => True

structure Kept : Prop where
  once : ∀ questionId row row', ByPress s row → ByPress s row' → row.answerTo = some questionId →
    row'.answerTo = some questionId → row = row'
  unanswered : ∀ h questionId chosen, s.handlers h = .inserting questionId chosen →
    ∀ row, ByPress s row → row.answerTo ≠ some questionId
  single : ∀ h k questionId chosen chosen', s.handlers h = .inserting questionId chosen →
    s.handlers k = .inserting questionId chosen' → h = k
  known : ∀ h id, (h, id) ∈ s.pressed → s.messages.get id ≠ none
  inbound : ∀ row, ByPress s row → row.direction = .inbound
  phases : ∀ h questionId, s.buttons h = some questionId → PhaseOk s h questionId (s.handlers h)

end

section
variable {s s' : Bridge} {h k : HandlerId} {questionId : MessageId} {phase : Phase}

/-- rows and presses are only added -/
structure Grows (s s' : Bridge) : Prop where
  rows : ∀ id row, s.messages.get id = some row → s'.messages.get id = some row
  pressed : ∀ p ∈ s.pressed, p ∈ s'.pressed

theorem Grows.mem (hg : Grows s s') {row : RelayMessage} (hrow : row ∈ s.messages.rows) :
    row ∈ s'.messages.rows :=
  (Table.get_eq_some_iff.mp (hg.rows _ _ (Table.get_eq_some_iff.mpr ⟨hrow, rfl⟩))).1

theorem Grows.inserted (hg : Grows s s') (hinserted : Inserted s h questionId) :
    Inserted s' h questionId := by
  obtain ⟨row, hrow, hpressed, hanswer⟩ := hinserted
  exact ⟨row, hg.mem hrow, hg.pressed _ hpressed, hanswer⟩

theorem Grows.told (hg : Grows s s') {notice : Notice} (htold : Told s h questionId notice) :
    Told s' h questionId notice := by
  rcases htold with hinserted | ⟨row, hrow, hanswer⟩
  · exact Or.inl (hg.inserted hinserted)
  · exact Or.inr ⟨row, hg.mem hrow, hanswer⟩

theorem Grows.optionAt (hg : Grows s s') {callback : Callback} (hoption : s.optionAt callback ≠ none) :
    s'.optionAt callback ≠ none := by
  cases hrow : s.messages.get callback.questionId with
  | none =>
    exfalso
    apply hoption
    rw [Bridge.optionAt, findOutbound, hrow]
    rfl
  | some row =>
    have hsame : s'.optionAt callback = s.optionAt callback := by
      rw [Bridge.optionAt, Bridge.optionAt, findOutbound, findOutbound, hrow, hg.rows _ _ hrow]
    rw [hsame]
    exact hoption

/-- what a handler knows outlasts the steps of the others -/
theorem Grows.phaseOk (hg : Grows s s') (hok : PhaseOk s h questionId phase) :
    PhaseOk s' h questionId phase := by
  cases phase with
  | findingOutbound callback => exact ⟨hok.1, hg.optionAt hok.2⟩
  | answering notice | returned notice => exact hg.told hok
  | _ => exact hok

theorem set_self (s : Bridge) (h : HandlerId) (phase : Phase) :
    (s.set h phase).handlers h = phase := if_pos rfl

theorem set_other (s : Bridge) (hk : k ≠ h) (phase : Phase) :
    (s.set h phase).handlers k = s.handlers k := if_neg hk

/-- a handler that is not about to insert after its step -/
theorem Kept.move (hkept : Kept s) {buttons : HandlerId → Option MessageId}
    (hbuttons : ∀ k, k ≠ h → buttons k = s.buttons k)
    (hphase : ∀ asked chosen, phase ≠ .inserting asked chosen)
    (hok : ∀ questionId, buttons h = some questionId → PhaseOk s h questionId phase) :
    Kept ({ s with buttons := buttons }.set h phase) := by
  let t : Bridge := { s with buttons := buttons }
  have hgrows : Grows s t := ⟨fun _ _ hrow => hrow, fun _ hp => hp⟩
  have hother : ∀ k asked chosen, (t.set h phase).handlers k = .inserting asked chosen →
      s.handlers k = .inserting asked chosen := by
    intro k asked chosen hk
    by_cases hkh : k = h
    · rw [hkh, set_self] at hk
      exact absurd hk (hphase asked chosen)
    · rwa [set_other t hkh] at hk
  refine ⟨hkept.once, fun k asked chosen hk => hkept.unanswered k asked chosen (hother k _ _ hk),
    fun k k' asked chosen chosen' hk hk' =>
      hkept.single k k' asked chosen chosen' (hother k _ _ hk) (hother k' _ _ hk'),
    hkept.known, hkept.inbound, fun k asked hk => ?_⟩
  by_cases hkh : k = h
  · subst hkh
    rw [set_self]
    exact hgrows.phaseOk (hok asked hk)
  · rw [set_other t hkh]
    exact hgrows.phaseOk (hkept.phases k asked ((hbuttons k hkh).symm.trans hk))

theorem Kept.set (hkept : Kept s) (hphase : ∀ asked chosen, phase ≠ .inserting asked chosen)
    (hok : ∀ questionId, s.buttons h = some questionId → PhaseOk s h questionId phase) :
    Kept (s.set h phase) :=
  hkept.move (fun _ _ => rfl) hphase hok

/-- a handler that has found no answer, where no other is about to insert one -/
theorem Kept.inserting (hkept : Kept s) {chosen : JsString}
    (hphase : s.handlers h = .findingAnswer questionId chosen)
    (hnone : ∀ row ∈ s.messages.rows, ¬ Answers row questionId)
    (halone : ∀ k chosen', s.handlers k ≠ .inserting questionId chosen') :
    Kept (s.set h (.inserting questionId chosen)) := by
  have hunanswered : ∀ row, ByPress s row → row.answerTo ≠ some questionId :=
    fun row hrow hanswer => hnone row hrow.1 ⟨hkept.inbound row hrow, hanswer⟩
  refine ⟨hkept.once, fun k asked chosen' hk => ?_, fun k k' asked chosen' chosen'' hk hk' => ?_,
    hkept.known, hkept.inbound, fun k asked hk => ?_⟩
  · by_cases hkh : k = h
    · rw [hkh, set_self] at hk
      cases hk
      exact hunanswered
    · rw [set_other s hkh] at hk
      exact hkept.unanswered k asked chosen' hk
  · by_cases hkh : k = h <;> by_cases hkh' : k' = h
    · rw [hkh, hkh']
    · rw [hkh, set_self] at hk
      rw [set_other s hkh'] at hk'
      cases hk
      exact absurd hk' (halone k' chosen'')
    · rw [hkh', set_self] at hk'
      rw [set_other s hkh] at hk
      cases hk'
      exact absurd hk (halone k chosen')
    · rw [set_other s hkh] at hk
      rw [set_other s hkh'] at hk'
      exact hkept.single k k' asked chosen' chosen'' hk hk'
  · by_cases hkh : k = h
    · subst hkh
      rw [set_self]
      have hok := hkept.phases k asked hk
      rw [hphase] at hok
      exact hok
    · rw [set_other s hkh]
      exact hkept.phases k asked hk

/-! ### a new row -/

/-- what an insert leaves as it was, and the row it adds -/
structure Inserts (row : RelayMessage) (s s' : Bridge) : Prop where
  fresh : s.messages.get row.id = none
  get : ∀ id, s'.messages.get id = if id = row.id then some row else s.messages.get id
  handlers : s'.handlers = s.handlers
  buttons : s'.buttons = s.buttons
  pressed : s'.pressed = s.pressed

theorem inserts_of_insertRow {row : RelayMessage} (h : s.insertRow row = some s') :
    Inserts row s s' := by
  obtain ⟨messages, hinsert, rfl⟩ := Option.map_eq_some_iff.mp h
  exact ⟨(Table.get_insert hinsert row.id).1, fun id => (Table.get_insert hinsert id).2, rfl, rfl, rfl⟩

variable {row : RelayMessage}

theorem Inserts.grows (hi : Inserts row s s') : Grows s s' where
  rows id other hother := by
    rw [hi.get, if_neg]
    · exact hother
    · rintro rfl
      rw [hi.fresh] at hother
      cases hother
  pressed p hp := by
    rw [hi.pressed]
    exact hp

theorem Inserts.mem_iff (hi : Inserts row s s') {other : RelayMessage} :
    other ∈ s'.messages.rows ↔ other = row ∨ other ∈ s.messages.rows := by
  have hmem : ∀ (t : Bridge), other ∈ t.messages.rows ↔ t.messages.get other.id = some other :=
    fun t => ⟨fun h => Table.get_eq_some_iff.mpr ⟨h, rfl⟩, fun h => (Table.get_eq_some_iff.mp h).1⟩
  constructor
  · intro hother
    rw [hmem, hi.get] at hother
    split at hother
    · exact Or.inl (Option.some.inj hother).symm
    · exact Or.inr ((hmem s).mpr hother)
  · rintro (rfl | hother)
    · rw [hmem, hi.get, if_pos rfl]
    · exact hi.grows.mem hother

/-- the new row is not one of those that were inserted by a press -/
theorem Inserts.byPress (hi : Inserts row s s') (hkept : Kept s) {other : RelayMessage}
    (hother : ByPress s' other) : ByPress s other := by
  obtain ⟨hmem, h, hpressed⟩ := hother
  rw [hi.pressed] at hpressed
  refine ⟨(hi.mem_iff.mp hmem).resolve_left ?_, h, hpressed⟩
  rintro rfl
  exact hkept.known h _ hpressed hi.fresh

theorem Kept.insertRow (hkept : Kept s) (hi : Inserts row s s') : Kept s' where
  once asked row row' hrow hrow' :=
    hkept.once asked row row' (hi.byPress hkept hrow) (hi.byPress hkept hrow')
  unanswered k asked chosen hk other hother := by
    rw [hi.handlers] at hk
    exact hkept.unanswered k asked chosen hk other (hi.byPress hkept hother)
  single := by
    rw [hi.handlers]
    exact hkept.single
  known k id hid := by
    rw [hi.pressed] at hid
    rw [hi.get]
    split
    · exact Option.some_ne_none _
    · exact hkept.known k id hid
  inbound other hother := hkept.inbound other (hi.byPress hkept hother)
  phases k asked hk := by
    rw [hi.buttons] at hk
    rw [hi.handlers]
    exact hi.grows.phaseOk (hkept.phases k asked hk)

/-- a press inserts its answer -/
theorem Kept.press (hkept : Kept s) {id : MessageId} {chosen : JsString} {now : Int}
    (hphase : s.handlers h = .inserting questionId chosen)
    (hi : Inserts (inboundRow id chosen (some questionId) now) s s')
    (hnext : phase = .answering (.sent chosen) ∨ phase = .threw) :
    Kept ({ s' with pressed := (h, id) :: s'.pressed }.set h phase) := by
  let row := inboundRow id chosen (some questionId) now
  let t : Bridge := { s' with pressed := (h, id) :: s'.pressed }
  have hkept' : Kept s' := hkept.insertRow hi
  have hphase' : s'.handlers h = .inserting questionId chosen := by
    rw [hi.handlers]
    exact hphase
  have hrow : row ∈ s'.messages.rows := hi.mem_iff.mpr (Or.inl rfl)
  have hgrows : Grows s' t := ⟨fun _ _ hrow => hrow, fun _ hp => List.mem_cons_of_mem _ hp⟩
  -- a row of a press is the new one, or one that was there before
  have hbyPress : ∀ other, ByPress t other → other = row ∨ ByPress s' other := by
    rintro other ⟨hother, k, hk⟩
    rcases List.mem_cons.mp hk with hk | hk
    · left
      have hid : other.id = row.id := (Prod.mk.inj hk).2
      have h1 := Table.get_eq_some_iff.mpr ⟨hother, hid⟩
      have h2 := Table.get_eq_some_iff.mpr ⟨hrow, rfl⟩
      exact Option.some.inj (h1.symm.trans h2)
    · exact Or.inr ⟨hother, k, hk⟩
  have hnew : ∀ k asked chosen', (t.set h phase).handlers k = .inserting asked chosen' →
      s'.handlers k = .inserting asked chosen' ∧ asked ≠ questionId := by
    intro k asked chosen' hk
    by_cases hkh : k = h
    · rw [hkh, set_self] at hk
      rcases hnext with hnext | hnext <;> rw [hnext] at hk <;> cases hk
    · rw [set_other t hkh] at hk
      refine ⟨hk, fun hasked => hkh ?_⟩
      subst hasked
      exact hkept'.single k h asked chosen' chosen hk hphase'
  refine ⟨fun asked row₁ row₂ h₁ h₂ ha₁ ha₂ => ?_, fun k asked chosen' hk other hother hanswer => ?_,
    fun k k' asked chosen' chosen'' hk hk' =>
      hkept'.single k k' asked chosen' chosen'' (hnew k _ _ hk).1 (hnew k' _ _ hk').1,
    fun k id' hid' => ?_, fun other hother => ?_, fun k asked hk => ?_⟩
  · rcases hbyPress row₁ h₁ with rfl | h₁ <;> rcases hbyPress row₂ h₂ with rfl | h₂
    · rfl
    · cases ha₁
      exact absurd ha₂ (hkept'.unanswered h _ chosen hphase' row₂ h₂)
    · cases ha₂
      exact absurd ha₁ (hkept'.unanswered h _ chosen hphase' row₁ h₁)
    · exact hkept'.once asked row₁ row₂ h₁ h₂ ha₁ ha₂
  · obtain ⟨hk, hasked⟩ := hnew k asked chosen' hk
    rcases hbyPress other hother with rfl | hother
    · exact hasked (Option.some.inj hanswer).symm
    · exact hkept'.unanswered k asked chosen' hk other hother hanswer
  · rcases List.mem_cons.mp hid' with hid' | hid'
    · have hid : id' = row.id := (Prod.mk.inj hid').2
      show s'.messages.get id' ≠ none
      rw [hid, Table.get_eq_some_iff.mpr ⟨hrow, rfl⟩]
      exact Option.some_ne_none _
    · exact hkept'.known k id' hid'
  · rcases hbyPress other hother with rfl | hother
    · rfl
    · exact hkept'.inbound other hother
  · by_cases hkh : k = h
    · subst hkh
      rw [set_self]
      have hok := hkept'.phases k asked hk
      rw [hphase'] at hok
      have hasked : questionId = asked := hok
      rcases hnext with rfl | rfl
      · exact Or.inl ⟨row, hrow, List.mem_cons_self, congrArg some hasked⟩
      · trivial
    · rw [set_other t hkh]
      exact hgrows.phaseOk (hkept'.phases k asked hk)

/-! ### every step -/

theorem kept_press (hkept : Kept s) (hidle : s.handlers h = .idle) (callback : Option Callback) :
    Kept (s.onPress h callback) := by
  cases callback with
  | none =>
    refine hkept.set (fun _ _ => Phase.noConfusion) fun asked hasked => ?_
    have hok := hkept.phases h asked hasked
    rw [hidle] at hok
    exact hok.elim
  | some callback =>
    refine hkept.move (fun k hk => if_neg hk) (fun _ _ => Phase.noConfusion) fun asked hasked => ?_
    rw [if_pos rfl] at hasked
    obtain ⟨chosen, hchosen, hid⟩ := Option.map_eq_some_iff.mp hasked
    refine ⟨hid, ?_⟩
    rw [hchosen]
    exact Option.some_ne_none _

theorem kept_findOutbound (hkept : Kept s) {callback : Callback}
    (hphase : s.handlers h = .findingOutbound callback) :
    Kept (s.set h (afterOutbound callback.questionId (s.optionAt callback))) := by
  have hok : ∀ asked, s.buttons h = some asked →
      callback.questionId = asked ∧ s.optionAt callback ≠ none := by
    intro asked hasked
    have hok := hkept.phases h asked hasked
    rwa [hphase] at hok
  cases hoption : s.optionAt callback with
  | none =>
    refine hkept.set (fun _ _ => Phase.noConfusion) fun asked hasked => ?_
    exact absurd hoption (hok asked hasked).2
  | some chosen =>
    refine hkept.set (fun _ _ => Phase.noConfusion) fun asked hasked => ?_
    exact (hok asked hasked).1

theorem findAnswer_some {answer : Option MessageId}
    (hfind : s.findAnswer questionId answer = some (some row)) :
    row ∈ s.messages.rows ∧ Answers row questionId := by
  cases answer with
  | none =>
    obtain ⟨-, hfind⟩ := Option.ite_none_right_eq_some.mp hfind
    cases hfind
  | some id =>
    rw [Bridge.findAnswer] at hfind
    cases hrow : s.messages.get id with
    | none =>
      rw [hrow] at hfind
      cases hfind
    | some row' =>
      rw [hrow] at hfind
      obtain ⟨hanswers, hfind⟩ := Option.ite_none_right_eq_some.mp hfind
      cases hfind
      exact ⟨(Table.get_eq_some_iff.mp hrow).1, hanswers.1⟩

theorem findAnswer_none {answer : Option MessageId}
    (hfind : s.findAnswer questionId answer = some none) :
    answer = none ∧ ∀ row ∈ s.messages.rows, ¬ Answers row questionId := by
  cases answer with
  | none =>
    obtain ⟨hall, -⟩ := Option.ite_none_right_eq_some.mp hfind
    exact ⟨rfl, fun row hrow => by simpa using List.all_eq_true.mp hall row hrow⟩
  | some id =>
    rw [Bridge.findAnswer] at hfind
    cases hrow : s.messages.get id with
    | none =>
      rw [hrow] at hfind
      cases hfind
    | some row' =>
      rw [hrow] at hfind
      obtain ⟨-, hfind⟩ := Option.ite_none_right_eq_some.mp hfind
      cases hfind

theorem kept_findAnswer (hkept : Kept s) {chosen : JsString} {answer : Option MessageId}
    {existing : Option RelayMessage} (hphase : s.handlers h = .findingAnswer questionId chosen)
    (hfind : s.findAnswer questionId answer = some existing) (halone : Alone s (.findAnswer h answer)) :
    Kept (s.set h (afterAnswer questionId chosen existing)) := by
  cases existing with
  | none =>
    obtain ⟨rfl, hnone⟩ := findAnswer_none hfind
    exact hkept.inserting hphase hnone (halone questionId chosen hphase)
  | some existing =>
    obtain ⟨hrow, hanswers⟩ := findAnswer_some hfind
    refine hkept.set (fun _ _ => Phase.noConfusion) fun asked hasked => ?_
    have hok := hkept.phases h asked hasked
    rw [hphase] at hok
    have hid : questionId = asked := hok
    exact Or.inr ⟨existing, hrow, hid ▸ hanswers, rfl⟩

variable {number : JsString → Option Int}

theorem kept_step (hkept : Kept s) {a : Action} (halone : Alone s a)
    (hstep : step number s a = some s') : Kept s' := by
  cases a with
  | insertOutbound id body options now => exact hkept.insertRow (inserts_of_insertRow hstep)
  | insertInbound id body answerTo now => exact hkept.insertRow (inserts_of_insertRow hstep)
  | press h data =>
    rw [Bridge.step] at hstep
    split at hstep
    next hphase =>
      cases hstep
      exact kept_press hkept hphase _
    next => cases hstep
  | findOutbound h =>
    rw [Bridge.step] at hstep
    split at hstep
    next callback hphase =>
      cases hstep
      exact kept_findOutbound hkept hphase
    next => cases hstep
  | findAnswer h answer =>
    rw [Bridge.step] at hstep
    split at hstep
    next asked chosen hphase =>
      obtain ⟨existing, hfind, rfl⟩ := Option.map_eq_some_iff.mp hstep
      exact kept_findAnswer hkept hphase hfind halone
    next => cases hstep
  | insert h id heard now =>
    rw [Bridge.step] at hstep
    split at hstep
    next asked chosen hphase =>
      obtain ⟨t, hrow, rfl⟩ := Option.map_eq_some_iff.mp hstep
      refine hkept.press hphase (inserts_of_insertRow hrow) ?_
      cases heard
      · exact Or.inr rfl
      · exact Or.inl rfl
    next => cases hstep
  | answerCallbackQuery h =>
    rw [Bridge.step] at hstep
    split at hstep
    next notice hphase =>
      cases hstep
      refine hkept.set (fun _ _ => Phase.noConfusion) fun asked hasked => ?_
      have hok := hkept.phases h asked hasked
      rwa [hphase] at hok
    next => cases hstep
  | throws h =>
    rw [Bridge.step] at hstep
    split at hstep
    next => cases hstep
    next => cases hstep
    next => cases hstep
    next =>
      cases hstep
      exact hkept.set (fun _ _ => Phase.noConfusion) fun _ _ => trivial

theorem kept_empty : Kept empty where
  once _ _ _ h := absurd h.1 List.not_mem_nil
  unanswered _ _ _ h := Phase.noConfusion h
  single _ _ _ _ _ h := Phase.noConfusion h
  known _ _ h := absurd h List.not_mem_nil
  inbound _ h := absurd h.1 List.not_mem_nil
  phases _ _ h := nomatch h

theorem Kept.oneAnswer (hkept : Kept s) (questionId : MessageId) : OneAnswer s questionId where
  once row row' hrow hrow' := hkept.once questionId row row' hrow hrow'
  told h notice hbutton hphase := by
    have hok := hkept.phases h questionId hbutton
    rw [hphase] at hok
    rcases hok with hinserted | ⟨row, hrow, hanswers, rfl⟩
    · exact Or.inl hinserted
    · exact Or.inr ⟨row, hrow, hanswers, rfl⟩

end

/-! ## runs -/

theorem one_answer (number : JsString → Option Int) (as : List Action) (s : Bridge)
    (halone : Runs.Guarded (step number) Alone empty as)
    (hrun : Runs.run (step number) empty as = some s) (questionId : MessageId) :
    OneAnswer s questionId := by
  have hkept : Kept s := Runs.run_inv_guarded (fun s a t hs ha hstep => kept_step hs ha hstep)
    as empty s kept_empty halone hrun
  exact hkept.oneAnswer questionId

/-! ## two presses -/

/-- the handler that an action is a step of -/
def Action.handler : Action → Option HandlerId
  | .insertOutbound .. | .insertInbound .. => none
  | .press h _ | .findOutbound h | .findAnswer h _ | .insert h .. | .answerCallbackQuery h
  | .throws h => some h

theorem step_other {number : JsString → Option Int} {s s' : Bridge} {a : Action} {k : HandlerId}
    (hstep : step number s a = some s') (hk : a.handler ≠ some k) : s'.handlers k = s.handlers k := by
  have hne : ∀ h, some h ≠ some k → k ≠ h := fun h hh he => hh (congrArg some he.symm)
  cases a with
  | insertOutbound id body options now => rw [(inserts_of_insertRow hstep).handlers]
  | insertInbound id body answerTo now => rw [(inserts_of_insertRow hstep).handlers]
  | press h data =>
    rw [Bridge.step] at hstep
    split at hstep
    · cases hstep
      cases parseCallbackData number data with
      | none => exact set_other s (hne h hk) _
      | some callback => exact if_neg (hne h hk)
    · cases hstep
  | insert h id heard now =>
    rw [Bridge.step] at hstep
    split at hstep
    · obtain ⟨t, hrow, rfl⟩ := Option.map_eq_some_iff.mp hstep
      rw [← (inserts_of_insertRow hrow).handlers]
      exact if_neg (hne h hk)
    · cases hstep
  | findAnswer h answer =>
    rw [Bridge.step] at hstep
    split at hstep
    · obtain ⟨existing, -, rfl⟩ := Option.map_eq_some_iff.mp hstep
      exact set_other s (hne h hk) _
    · cases hstep
  | findOutbound h | answerCallbackQuery h | throws h =>
    rw [Bridge.step] at hstep
    split at hstep <;> cases hstep
    all_goals exact set_other s (hne h hk) _

/-- `Number` of one digit -/
def digit (text : JsString) : Option Int :=
  match text.units with
  | [u] => if 48 ≤ u.toNat ∧ u.toNat ≤ 57 then some (u.toNat - 48) else none
  | _ => none

/-- a question is asked, and the button of its first option is pressed -/
def firstPress : List Action :=
  [.insertOutbound (lit "q1") (lit "?") (some [lit "si", lit "no"]) 0,
    .press 1 (buildCallbackData (lit "q1") 0), .findOutbound 1]

theorem alone_firstPress {s : Bridge} (hrun : Runs.run (step digit) empty firstPress = some s) :
    Alone s (.findAnswer 1 none) := by
  intro questionId chosen hphase k chosen' hk
  have hne : k ≠ 1 := by
    rintro rfl
    rw [hphase] at hk
    cases hk
  have hidle : s.handlers k = .idle :=
    Runs.run_inv_guarded (P := fun s => s.handlers k = .idle)
      (fun s a t hs ha hstep => (step_other hstep ha).trans hs) firstPress empty s rfl
      (Runs.guarded_of_forall (G := fun a => a.handler ≠ some k) firstPress empty
        (by simpa [firstPress, Action.handler] using hne.symm)) hrun
  rw [hidle] at hk
  cases hk

/-- the second press comes after the first, and is told what is stored -/
def secondPress : List Action :=
  [.insert 1 (lit "a1") true 1, .answerCallbackQuery 1, .press 2 (buildCallbackData (lit "q1") 1),
    .findOutbound 2, .findAnswer 2 (some (lit "a1")), .answerCallbackQuery 2]

theorem one_answer_secondPress :
    ∃ s, Runs.run (step digit) empty (firstPress ++ .findAnswer 1 none :: secondPress) = some s ∧
      s.handlers 2 = .returned (.already (lit "si")) ∧ OneAnswer s (lit "q1") := by
  have hrun : (Runs.run (step digit) empty (firstPress ++ .findAnswer 1 none :: secondPress)).map
      (fun s => s.handlers 2) = some (.returned (.already (lit "si"))) := by decide
  obtain ⟨s, hs, hphase⟩ := Option.map_eq_some_iff.mp hrun
  refine ⟨s, hs, hphase, one_answer digit _ s ?_ hs (lit "q1")⟩
  refine (Runs.guarded_append _ _ _).mpr ⟨⟨trivial, fun _ _ => ⟨trivial, fun _ _ => ⟨trivial,
    fun _ _ => trivial⟩⟩⟩, fun t ht => ⟨alone_firstPress ht, fun _ _ => ?_⟩⟩
  exact ⟨trivial, fun _ _ => ⟨trivial, fun _ _ => ⟨trivial, fun _ _ => ⟨trivial, fun _ _ => ⟨trivial,
    fun _ _ => ⟨trivial, fun _ _ => trivial⟩⟩⟩⟩⟩⟩

/-- the second press looks for an answer before the first has inserted its own -/
def doubleTap : List Action :=
  firstPress ++ [.press 2 (buildCallbackData (lit "q1") 1), .findOutbound 2, .findAnswer 1 none,
    .findAnswer 2 none, .insert 1 (lit "a1") true 1, .insert 2 (lit "a2") true 2]

theorem two_answers : ∃ s, Runs.run (step digit) empty doubleTap = some s ∧
    ¬ OneAnswer s (lit "q1") := by
  let first := inboundRow (lit "a1") (lit "si") (some (lit "q1")) 1
  let second := inboundRow (lit "a2") (lit "no") (some (lit "q1")) 2
  have hrun : (Runs.run (step digit) empty doubleTap).map (fun s =>
      (s.messages.get (lit "a1"), s.messages.get (lit "a2"), s.pressed))
        = some (some first, some second, [(2, lit "a2"), (1, lit "a1")]) := by decide
  obtain ⟨s, hs, hpair⟩ := Option.map_eq_some_iff.mp hrun
  rw [Prod.mk.injEq, Prod.mk.injEq] at hpair
  obtain ⟨hfirst, hsecond, hpressed⟩ := hpair
  refine ⟨s, hs, fun hone => ?_⟩
  have hrow : ByPress s first := by
    refine ⟨(Table.get_eq_some_iff.mp hfirst).1, 1, ?_⟩
    rw [hpressed]
    exact List.mem_cons_of_mem _ List.mem_cons_self
  have hrow' : ByPress s second := by
    refine ⟨(Table.get_eq_some_iff.mp hsecond).1, 2, ?_⟩
    rw [hpressed]
    exact List.mem_cons_self
  have heq := hone.once first second hrow hrow' rfl rfl
  exact absurd (congrArg RelayMessage.createdAt heq) (by decide)

end Relay
