import JinCore.Hitl.Pending
import JinCore.Lib.Runs
import JinCore.ModelProvider.Failover

/-!
# The model of the chat (`chat-model-preference.service.ts`)

The preference of the owner is a row of the database and a copy of it in memory.  Every call sends one
statement and assigns the copy when it is answered; in between other calls go on.

* `readFromDb`, `setPreference`, `Pc`   the row, and where a call stands;
* `step`                                calls, statements and answers in any order;
* `InOrder`                             an answer is assigned before it is out of date;
* `cache_agrees`                        then the copy is the row once all calls have ended, and one
                                        assignment out of order is enough for it not to be.
-/

namespace ModelProvider
open JsString Common Hitl Runs

/-! ## the row -/

inductive ModelEffort where
  | low | medium | high
  deriving DecidableEq, Repr

/-- the schema of `models.yaml` wants a model id that is not empty -/
structure ChatModelOption where
  vendor : Vendor
  modelId : JsString
  label : JsString
  supportsEffort : Bool
  modelId_ne : modelId.units ≠ []

structure ChatModelPreference where
  vendor : Vendor
  modelId : JsString
  effort : Option ModelEffort
  setBy : JsString
  changedAt : JsString
  deriving DecidableEq, Repr

/-- the row with id 1, which a migration inserts and nothing deletes -/
structure ChatModelRow where
  vendor : Option Vendor
  modelId : Option JsString
  effort : Option ModelEffort
  setBy : JsString
  changedAt : Int
  deriving DecidableEq, Repr

def readFromDb (row : ChatModelRow) : Option ChatModelPreference :=
  match row.vendor, truthy row.modelId with
  | some vendor, some modelId => some ⟨vendor, modelId, row.effort, row.setBy, isoText row.changedAt⟩
  | _, _ => none

def vendorText : Vendor → JsString
  | .anthropic => lit "anthropic"
  | .google => lit "google"
  | .openai => lit "openai"

structure PreferenceInput where
  vendor : JsString
  modelId : JsString
  effort : Option ModelEffort
  deriving DecidableEq, Repr

def invalidChatModelOptionError (vendor modelId : JsString) : JinError where
  message := lit "\"" ++ vendor ++ lit "/" ++ modelId
    ++ lit "\" no está en el catálogo de modelos elegibles para el chat."
  code := lit "MODEL_PROVIDER_INVALID_CHAT_OPTION"
  httpStatus := some 400

/-- what `setPreference` writes into the row -/
def preferredRow (option : ChatModelOption) (input : PreferenceInput) (setBy : JsString) (now : Int) :
    ChatModelRow where
  vendor := some option.vendor
  modelId := some option.modelId
  effort := if option.supportsEffort then input.effort else none
  setBy := setBy
  changedAt := now

/-- what `clearPreference` writes into it -/
def clearedRow (setBy : JsString) (now : Int) : ChatModelRow := ⟨none, none, none, setBy, now⟩

/-- what `setPreference` puts into the cache -/
def preferred (option : ChatModelOption) (input : PreferenceInput) (setBy : JsString) (now : Int) :
    ChatModelPreference where
  vendor := option.vendor
  modelId := option.modelId
  effort := if option.supportsEffort then input.effort else none
  setBy := setBy
  changedAt := isoText now

/-! ## the calls -/

inductive PreferenceOp where
  | refresh
  | setPreference (input : PreferenceInput) (setBy : JsString)
  | clearPreference (setBy : JsString)
  deriving DecidableEq, Repr

/-- where a call stands -/
inductive PreferencePc where
  | idle
  /-- the `select` is on its way -/
  | reading
  /-- the `update` is on its way; `value` is for the cache -/
  | writing (row : ChatModelRow) (value : Option ChatModelPreference)
  /-- the statement is answered, and the call goes on to assign the cache -/
  | answered (value : Option ChatModelPreference)
  | done (outcome : Outcome (Option ChatModelPreference))
  deriving DecidableEq, Repr

/-- a call up to its first `await` -/
def startOp (catalog : List ChatModelOption) (now : Int) : PreferenceOp → PreferencePc
  | .refresh => .reading
  | .setPreference input setBy =>
    match catalog.find? fun option =>
      decide (vendorText option.vendor = input.vendor ∧ option.modelId = input.modelId) with
    | none => .done (.threw (invalidChatModelOptionError input.vendor input.modelId))
    | some option =>
      .writing (preferredRow option input setBy now) (some (preferred option input setBy now))
  | .clearPreference setBy => .writing (clearedRow setBy now) none

structure PreferenceSystem where
  row : ChatModelRow
  cached : Option ChatModelPreference
  calls : CallId → PreferencePc

/-- after a start of the process -/
def PreferenceSystem.init (row : ChatModelRow) : PreferenceSystem := ⟨row, none, fun _ => .idle⟩

def PreferenceSystem.set (s : PreferenceSystem) (id : CallId) (pc : PreferencePc) : PreferenceSystem :=
  { s with calls := Function.update s.calls id pc }

inductive PreferenceLabel where
  | call (id : CallId) (op : PreferenceOp) (now : Int)
  | statement (id : CallId) (fate : Fate)
  | resume (id : CallId)
  deriving DecidableEq, Repr

section
variable (catalog : List ChatModelOption)

def preferenceStep (s : PreferenceSystem) : PreferenceLabel → Option PreferenceSystem
  | .call id op now =>
    match s.calls id with
    | .idle => some (s.set id (startOp catalog now op))
    | _ => none
  | .statement id fate =>
    match s.calls id with
    | .reading =>
      some (s.set id (if fate = .ok then .answered (readFromDb s.row) else .done .failed))
    | .writing row value =>
      some (PreferenceSystem.set { s with row := if fate.applies then row else s.row } id
        (if fate = .ok then .answered value else .done .failed))
    | _ => none
  | .resume id =>
    match s.calls id with
    | .answered value => some (PreferenceSystem.set { s with cached := value } id (.done (.returned value)))
    | _ => none

/-! ## in order -/

/-- the value that another call is about to assign is up to date -/
def FreshElsewhere (s : PreferenceSystem) (id : CallId) : Prop :=
  ∃ id', id' ≠ id ∧ s.calls id' = .answered (readFromDb s.row)

/-- an answer is assigned while the row still reads so, or a call that is up to date assigns after it;
and no answer to an update is lost -/
def InOrder (s : PreferenceSystem) : PreferenceLabel → Prop
  | .call _ _ _ => True
  | .statement id fate => (∃ row value, s.calls id = .writing row value) → fate ≠ .applied
  | .resume id => s.calls id = .answered (readFromDb s.row) ∨ FreshElsewhere s id

/-- every call that was made has ended -/
def Settled (s : PreferenceSystem) : Prop :=
  ∀ id, s.calls id = .idle ∨ ∃ outcome, s.calls id = .done outcome

def PreferencePc.isAnswered : PreferencePc → Bool
  | .answered _ | .done (.returned _) => true
  | _ => false

end

section
variable {catalog : List ChatModelOption} {s t : PreferenceSystem} {id : CallId} {row : ChatModelRow}
  {labels : List PreferenceLabel}

theorem calls_set_self (s : PreferenceSystem) (id : CallId) (pc : PreferencePc) :
    (s.set id pc).calls id = pc := Function.update_self ..

theorem calls_set_of_ne (s : PreferenceSystem) {id id' : CallId} (h : id' ≠ id) (pc : PreferencePc) :
    (s.set id pc).calls id' = s.calls id' := Function.update_of_ne h ..

/-! ## what a step does -/

/-- an update is on its way with the value that its row reads as -/
def Faithful (s : PreferenceSystem) : Prop :=
  ∀ id row value, s.calls id = .writing row value → readFromDb row = value

theorem readFromDb_preferredRow (option : ChatModelOption) (input : PreferenceInput) (setBy : JsString)
    (now : Int) :
    readFromDb (preferredRow option input setBy now) = some (preferred option input setBy now) := by
  have htruthy : truthy (some option.modelId) = some option.modelId := by
    rw [truthy, Option.filter_some, if_pos (decide_eq_true option.modelId_ne)]
  show (match some option.vendor, truthy (some option.modelId) with
    | some vendor, some modelId => _
    | _, _ => none) = _
  rw [htruthy]
  rfl

theorem startOp_writing {now : Int} {op : PreferenceOp} {value : Option ChatModelPreference}
    (h : startOp catalog now op = .writing row value) : readFromDb row = value := by
  cases op with
  | refresh => cases h
  | setPreference input setBy =>
    simp only [startOp] at h
    split at h
    · cases h
    · cases h
      exact readFromDb_preferredRow _ input setBy now
  | clearPreference setBy =>
    cases h
    rfl

/-- a started call has not been answered -/
theorem startOp_not_answered (catalog : List ChatModelOption) (now : Int) (op : PreferenceOp) :
    (startOp catalog now op).isAnswered = false := by
  cases op with
  | refresh => rfl
  | setPreference input setBy =>
    simp only [startOp]
    split
    · rfl
    · rfl
  | clearPreference setBy => rfl

/-- what a step can do: start a call, send a statement, or assign the cache -/
inductive PreferenceMove (s t : PreferenceSystem) : PreferenceLabel → Prop where
  | started (id : CallId) (op : PreferenceOp) (now : Int) (pc : PreferencePc)
      (hpc : s.calls id = .idle) (hanswered : pc.isAnswered = false)
      (hwriting : ∀ row value, pc = .writing row value → readFromDb row = value) (ht : t = s.set id pc) :
      PreferenceMove s t (.call id op now)
  | read (id : CallId) (hpc : s.calls id = .reading) (ht : t = s.set id (.answered (readFromDb s.row))) :
      PreferenceMove s t (.statement id .ok)
  | wrote (id : CallId) (row : ChatModelRow) (value : Option ChatModelPreference)
      (hpc : s.calls id = .writing row value)
      (ht : t = PreferenceSystem.set { s with row := row } id (.answered value)) :
      PreferenceMove s t (.statement id .ok)
  | failed (id : CallId) (fate : Fate) (row : ChatModelRow)
      (hpc : s.calls id = .reading ∧ row = s.row ∨ ∃ row' value, s.calls id = .writing row' value)
      (hrow : fate ≠ .applied → row = s.row) (hfate : fate ≠ .ok)
      (ht : t = PreferenceSystem.set { s with row := row } id (.done .failed)) :
      PreferenceMove s t (.statement id fate)
  | assigned (id : CallId) (value : Option ChatModelPreference) (hpc : s.calls id = .answered value)
      (ht : t = PreferenceSystem.set { s with cached := value } id (.done (.returned value))) :
      PreferenceMove s t (.resume id)

theorem preferenceMove {label : PreferenceLabel} (h : preferenceStep catalog s label = some t) :
    PreferenceMove s t label := by
  cases label with
  | call id op now =>
    simp only [preferenceStep] at h
    split at h
    · next hpc =>
      cases h
      exact .started id op now _ hpc (startOp_not_answered catalog now op)
        (fun _ _ hwriting => startOp_writing hwriting) rfl
    · cases h
  | statement id fate =>
    simp only [preferenceStep] at h
    split at h
    · next hpc =>
      cases h
      by_cases hok : fate = .ok
      · rw [hok]
        exact .read id hpc rfl
      · rw [if_neg hok]
        exact .failed id fate s.row (Or.inl ⟨hpc, rfl⟩) (fun _ => rfl) hok rfl
    · next row value hpc =>
      cases h
      cases fate with
      | ok => exact .wrote id row value hpc rfl
      | lost => exact .failed id .lost s.row (Or.inr ⟨row, value, hpc⟩) (fun _ => rfl) (by decide) rfl
      | applied =>
        exact .failed id .applied row (Or.inr ⟨row, value, hpc⟩) (fun h => absurd rfl h) (by decide) rfl
    · cases h
  | resume id =>
    simp only [preferenceStep] at h
    split at h
    · next value hpc =>
      cases h
      exact .assigned id value hpc rfl
    · cases h

/-! ## the cache and the row -/

/-- once a call has been answered, the cache is the row, or a call is about to make it so -/
def Current (agreed : Prop) (s : PreferenceSystem) : Prop :=
  (agreed ∨ ∃ id, (s.calls id).isAnswered = true) →
    s.cached = readFromDb s.row ∨ ∃ id, s.calls id = .answered (readFromDb s.row)

structure Kept (agreed : Prop) (s : PreferenceSystem) : Prop where
  faithful : Faithful s
  current : Current agreed s

theorem Faithful.set (h : Faithful s) {pc : PreferencePc}
    (hpc : ∀ row value, pc = .writing row value → readFromDb row = value)
    (ht : t.calls = (s.set id pc).calls) : Faithful t := by
  intro id' row value hwriting
  rw [ht] at hwriting
  by_cases heq : id' = id
  · rw [heq, calls_set_self] at hwriting
    exact hpc row value hwriting
  · rw [calls_set_of_ne s heq] at hwriting
    exact h id' row value hwriting

/-- a call that has not been answered goes to a place where it has not -/
theorem Current.set {agreed : Prop} (h : Current agreed s) {pc : PreferencePc}
    (hid : (s.calls id).isAnswered = false) (hpc : pc.isAnswered = false) :
    Current agreed (s.set id pc) := by
  have hother {id' : CallId} (hanswered : ((s.set id pc).calls id').isAnswered = true) : id' ≠ id := by
    intro heq
    rw [heq, calls_set_self, hpc] at hanswered
    cases hanswered
  intro hstarted
  have hs : agreed ∨ ∃ id', (s.calls id').isAnswered = true := by
    refine hstarted.imp_right fun ⟨id', hanswered⟩ => ⟨id', ?_⟩
    rwa [← calls_set_of_ne s (hother hanswered) pc]
  refine (h hs).imp_right fun ⟨id', hfresh⟩ => ⟨id', ?_⟩
  have hne : id' ≠ id := by
    intro heq
    rw [← heq, hfresh] at hid
    cases hid
  rw [calls_set_of_ne s hne]
  exact hfresh

theorem kept_step {agreed : Prop} {label : PreferenceLabel} (h : Kept agreed s)
    (horder : InOrder s label) (hmove : PreferenceMove s t label) : Kept agreed t := by
  cases hmove with
  | started id op now pc hpc hanswered hwriting ht =>
    subst ht
    exact ⟨h.faithful.set hwriting rfl, h.current.set (by rw [hpc]; rfl) hanswered⟩
  | read id hpc ht =>
    subst ht
    exact ⟨h.faithful.set (by intro _ _ hwriting; cases hwriting) rfl,
      fun _ => Or.inr ⟨id, calls_set_self ..⟩⟩
  | wrote id row value hpc ht =>
    subst ht
    refine ⟨h.faithful.set (by intro _ _ hwriting; cases hwriting) rfl, fun _ => Or.inr ⟨id, ?_⟩⟩
    rw [calls_set_self]
    exact congrArg _ (h.faithful id row value hpc).symm
  | failed id fate row hpc hrow hfate ht =>
    -- the row is as before: no answer to an update is lost
    have hsame : row = s.row := by
      rcases hpc with ⟨-, hsame⟩ | hwriting
      · exact hsame
      · exact hrow (horder hwriting)
    subst ht
    rw [hsame]
    refine ⟨h.faithful.set (by intro _ _ hwriting; cases hwriting) rfl, h.current.set ?_ rfl⟩
    rcases hpc with ⟨hreading, -⟩ | ⟨row', value, hwriting⟩
    · rw [hreading]
      rfl
    · rw [hwriting]
      rfl
  | assigned id value hpc ht =>
    subst ht
    refine ⟨h.faithful.set (by intro _ _ hwriting; cases hwriting) rfl, fun _ => ?_⟩
    rcases horder with hfresh | ⟨id', hne, hfresh⟩
    · rw [hpc] at hfresh
      cases hfresh
      exact Or.inl rfl
    · refine Or.inr ⟨id', ?_⟩
      rw [calls_set_of_ne _ hne]
      exact hfresh

theorem kept_init (row : ChatModelRow) : Kept (readFromDb row = none) (.init row) := by
  refine ⟨fun id row value hwriting => (nomatch hwriting), fun hstarted => ?_⟩
  rcases hstarted with hnone | ⟨id, hanswered⟩
  · exact Or.inl hnone.symm
  · cases hanswered

/-! ## out of order -/

/-- the cache is out of date, and no call is about to change that -/
def Stale (s : PreferenceSystem) : Prop :=
  s.cached ≠ readFromDb s.row ∧ ∀ id, s.calls id ≠ .answered (readFromDb s.row)

theorem stale_assigned (hmove : PreferenceMove s t (.resume id)) (horder : ¬ InOrder s (.resume id)) :
    Stale t := by
  cases hmove with
  | assigned id value hpc ht =>
    subst ht
    rw [InOrder, not_or] at horder
    refine ⟨fun heq => horder.1 ?_, fun id' hfresh => ?_⟩
    · rw [hpc]
      exact congrArg _ heq
    · by_cases heq : id' = id
      · rw [heq, calls_set_self] at hfresh
        cases hfresh
      · rw [calls_set_of_ne _ heq] at hfresh
        exact horder.2 ⟨id', heq, hfresh⟩

theorem stale_resume (h : Stale s) (hmove : PreferenceMove s t (.resume id)) : Stale t := by
  refine stale_assigned hmove fun horder => ?_
  rcases horder with hfresh | ⟨id', -, hfresh⟩
  · exact h.2 id hfresh
  · exact h.2 id' hfresh

theorem stale_resumes (h : Stale s) (hlabels : ∀ l ∈ labels, ∃ id, l = .resume id)
    (hrun : run (preferenceStep catalog) s labels = some t) : Stale t := by
  induction labels generalizing s with
  | nil =>
    cases hrun
    exact h
  | cons l labels ih =>
    obtain ⟨u, hstep, hrest⟩ := run_cons_some.mp hrun
    obtain ⟨id, rfl⟩ := hlabels l List.mem_cons_self
    exact ih (stale_resume h (preferenceMove hstep))
      (fun l' hl' => hlabels l' (List.mem_cons_of_mem _ hl')) hrest

end

/-- **the cache agrees with the row exactly as long as it is assigned in order**: a run whose steps are
in order leaves the row in the cache once every call has ended, unless none of them was answered; and
after an assignment out of order the calls that are still to assign cannot mend it -/
theorem cache_agrees (catalog : List ChatModelOption) :
    (∀ row labels s, run (preferenceStep catalog) (.init row) labels = some s →
      Guarded (preferenceStep catalog) InOrder (.init row) labels → Settled s →
      (readFromDb row = none ∨ ∃ id value, s.calls id = .done (.returned value)) →
        s.cached = readFromDb s.row) ∧
    (∀ s id labels t, ¬ InOrder s (.resume id) →
      (∀ l ∈ labels, ∃ id, l = .resume id) →
      run (preferenceStep catalog) s (.resume id :: labels) = some t → t.cached ≠ readFromDb t.row) := by
  constructor
  · intro row labels s hrun hguarded hsettled hanswered
    have hkept : Kept (readFromDb row = none) s :=
      run_inv_guarded (fun _ _ _ hkept horder hstep => kept_step hkept horder (preferenceMove hstep))
        labels _ s (kept_init row) hguarded hrun
    have hcurrent := hkept.current (hanswered.imp_right fun ⟨id, value, hdone⟩ => ⟨id, by rw [hdone]; rfl⟩)
    refine hcurrent.resolve_right fun ⟨id, hfresh⟩ => ?_
    rcases hsettled id with hidle | ⟨outcome, hdone⟩
    · rw [hidle] at hfresh
      cases hfresh
    · rw [hdone] at hfresh
      cases hfresh
  · intro s id labels t horder hlabels hrun
    obtain ⟨u, hstep, hrest⟩ := run_cons_some.mp hrun
    exact (stale_resumes (stale_assigned (preferenceMove hstep) horder) hlabels hrest).1

/-! ## a read that is assigned too late -/

def sampleOption : ChatModelOption := ⟨.anthropic, lit "claude-a", lit "A", true, by decide⟩

def sampleInput : PreferenceInput := ⟨lit "anthropic", lit "claude-a", some .high⟩

/-- a `GET` and a change of the preference at the same time -/
def twoCalls : List PreferenceLabel :=
  [.call 0 .refresh 0, .call 1 (.setPreference sampleInput (lit "owner")) 0, .statement 0 .ok,
    .statement 1 .ok]

/-- the read is answered first and assigned last: the preference is in the row only -/
theorem late_read : ∃ s, run (preferenceStep [sampleOption]) (.init (clearedRow (lit "owner") 0))
      (twoCalls ++ [.resume 1, .resume 0]) = some s ∧ Settled s ∧
    (∀ id < 2, ∃ value, s.calls id = .done (.returned value)) ∧
    s.cached = none ∧ s.cached ≠ readFromDb s.row := by
  refine ⟨_, rfl, fun id => ?_, fun id hid => ?_, rfl, by decide⟩
  · match id with
    | 0 | 1 => exact Or.inr ⟨_, rfl⟩
    | _ + 2 => exact Or.inl rfl
  · match id with
    | 0 | 1 => exact ⟨_, rfl⟩

/-- assigned in the order of their statements, they leave the row in the cache -/
theorem read_then_written : ∃ s,
    run (preferenceStep [sampleOption]) (.init (clearedRow (lit "owner") 0))
      (twoCalls ++ [.resume 0, .resume 1]) = some s ∧ s.cached = readFromDb s.row := by
  refine ⟨_, rfl, (cache_agrees [sampleOption]).1 _ (twoCalls ++ [.resume 0, .resume 1]) _ rfl ?_
    (fun id => ?_) (Or.inl rfl)⟩
  · refine (guarded_cons_some rfl).mpr ⟨trivial, (guarded_cons_some rfl).mpr ⟨trivial, ?_⟩⟩
    refine (guarded_cons_some rfl).mpr ⟨fun _ => by decide, (guarded_cons_some rfl).mpr
      ⟨fun _ => by decide, ?_⟩⟩
    -- the read is out of date, but the change comes after it
    exact (guarded_cons_some rfl).mpr ⟨Or.inr ⟨1, by decide, rfl⟩, (guarded_cons_some rfl).mpr
      ⟨Or.inl rfl, trivial⟩⟩
  · match id with
    | 0 | 1 => exact Or.inr ⟨_, rfl⟩
    | _ + 2 => exact Or.inl rfl

end ModelProvider
